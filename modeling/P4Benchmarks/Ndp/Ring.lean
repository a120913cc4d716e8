import P4Benchmarks.Lib.Cyclic
/-!
# Rings of NDP

`ring.h`: one position of a ring is never used.  The library puts free buffers in, the network side
takes them out, and the library later looks at the positions that were taken.
-/
namespace P4Benchmarks.Ndp
open Lib List Nat
structure Ring (α : Type) where
  buf : List α
  (producerIndex consumerIndex : Nat)
deriving DecidableEq
namespace Ring
variable {α : Type} (r : Ring α)
def numElements : Nat := r.buf.length

/-- A round ring masks the index.  `RING_INIT` accepts only powers of two for it, for which this is
the same. -/
def wrapIndex (index : Nat) : Nat := index%r.numElements
def init (numElements : Nat) (v : α) : Ring α := ⟨List.replicate numElements v,0,0⟩
def getElementAt [Inhabited α] (r : Ring α) (i : Nat) : α := r.buf.getD i default
def setElementAt (i : Nat) (v : α) : Ring α := { r with buf := r.buf.set i v }
def getElementAtWrapped [Inhabited α] (r : Ring α) (i : Nat) : α := r.getElementAt (r.wrapIndex i)
def setElementAtWrapped (i : Nat) (v : α) : Ring α := r.setElementAt (r.wrapIndex i) v
def producerAdvance (numPos : Nat) : Ring α := { r with producerIndex := r.wrapIndex (r.producerIndex+numPos) }
def consumerAdvance (numPos : Nat) : Ring α := { r with consumerIndex := r.wrapIndex (r.consumerIndex+numPos) }
def produce (v : α) : Ring α := (r.setElementAt r.producerIndex v).producerAdvance 1
def consume [Inhabited α] (r : Ring α) : α × Ring α := (r.getElementAt r.consumerIndex,r.consumerAdvance 1)

def producerAvailable : Nat :=
  if r.consumerIndex ≤ r.producerIndex then r.consumerIndex+r.numElements-r.producerIndex-1
  else r.consumerIndex-r.producerIndex-1

def consumerAvailable : Nat :=
  if r.producerIndex < r.consumerIndex then r.producerIndex+r.numElements-r.consumerIndex
  else r.producerIndex-r.consumerIndex
section Frame
variable (r : Ring α) (i : Nat) (v : α)
@[simp] theorem buf_setElementAt : (r.setElementAt i v).buf=r.buf.set i v := rfl
@[simp] theorem producerIndex_setElementAt : (r.setElementAt i v).producerIndex=r.producerIndex := rfl
@[simp] theorem numElements_setElementAt : (r.setElementAt i v).numElements=r.numElements := length_set ..
@[simp] theorem setElementAtWrapped_eq : r.setElementAtWrapped i v=r.setElementAt (r.wrapIndex i) v := rfl
@[simp] theorem numElements_produce : (r.produce v).numElements=r.numElements := length_set ..
end Frame

def filled (l rest : List α) : Ring α := ⟨l++rest,l.length,0⟩

theorem producerAvailable_filled (l rest : List α) : (filled l rest).producerAvailable=rest.length-1 := by
  show (if 0≤l.length then 0+(l++rest).length-l.length-1 else 0-l.length-1)=_
  rw [if_pos (Nat.zero_le _),length_append]
  omega

theorem produce_filled (l : List α) {u v : α} {rest : List α} (hrest : rest≠[]) :
    (filled l (u::rest)).produce v=filled (l++[v]) rest := by
  have hpos := length_pos_iff.mpr hrest
  have hset : (l++u::rest).set l.length v=l++[v]++rest := by simp
  have hwrap : (l.length+1)%(l++[v]++rest).length=(l++[v]).length := by
    rw [length_append,length_append,length_singleton]
    exact mod_eq_of_lt (by omega)
  rw [produce,producerAdvance,wrapIndex,numElements,setElementAt,filled,filled,hset,hwrap]
variable [Inhabited α]
/-- The elements that were taken and not yet looked at, from the index `shadow` on, and after them
the elements that can be taken. -/
structure Holds (r : Ring α) (shadow : Nat) (unseen free : List α) : Prop where
  shadow_lt : shadow < r.numElements
  fits : (unseen++free).length < r.numElements
  consumerIndex_eq : r.consumerIndex=(shadow+unseen.length)%r.numElements
  producerIndex_eq : r.producerIndex=(shadow+(unseen++free).length)%r.numElements
  reads : CyclicReads r.buf shadow (unseen++free)
namespace Holds
variable {r : Ring α} {shadow : Nat} {unseen free : List α} {v : α}
section
variable (h : r.Holds shadow unseen free)
include h
theorem length_lt : unseen.length+free.length < r.numElements := by
  rw [← length_append]
  exact h.fits

theorem producerIndex_eq_add : r.producerIndex=(r.consumerIndex+free.length)%r.numElements := by
  rw [h.producerIndex_eq,h.consumerIndex_eq,mod_add_mod,length_append,Nat.add_assoc]

theorem consumerIndex_lt : r.consumerIndex < r.numElements := by
  rw [h.consumerIndex_eq]
  exact mod_lt _ (zero_lt_of_lt h.shadow_lt)

theorem available_eq : r.consumerAvailable=free.length ∧ r.producerAvailable=r.numElements-1-free.length := by
  have hlen := h.length_lt
  have hci := h.consumerIndex_lt
  rw [consumerAvailable,producerAvailable,h.producerIndex_eq_add]
  rcases add_mod_cases hci (by omega : free.length < r.numElements) with ⟨hlt,heq⟩ | ⟨hge,heq⟩
  · rw [heq,if_neg (by omega),if_pos (by omega)]
    omega
  · rw [heq,if_pos (by omega),if_neg (by omega)]
    omega
end

theorem getElementAt_consumerIndex (h : r.Holds shadow unseen (v::free)) : r.getElementAt r.consumerIndex=v := by
  have hfree := (cyclicReads_append.mp h.reads).2
  have hv := (cyclicReads_cons.mp hfree).1
  have hci : (shadow+unseen.length)%r.buf.length < r.buf.length := mod_lt _ (zero_lt_of_lt h.shadow_lt)
  rw [cyclicAt_zero hci] at hv
  rwa [h.consumerIndex_eq]

theorem consumerAdvance (h : r.Holds shadow unseen (v::free)) :
    (r.consumerAdvance 1).Holds shadow (unseen++[v]) free where
  shadow_lt := h.shadow_lt
  fits := by
    rw [append_assoc]
    exact h.fits
  consumerIndex_eq := by
    show (r.consumerIndex+1)%r.numElements=_
    rw [h.consumerIndex_eq,mod_add_mod,length_append]
    rfl
  producerIndex_eq := by
    rw [append_assoc]
    exact h.producerIndex_eq
  reads := by
    rw [append_assoc]
    exact h.reads

theorem getElementAt_shadow (h : r.Holds shadow (v::unseen) free) : r.getElementAt shadow=v := by
  have hv := (cyclicReads_cons.mp h.reads).1
  rwa [cyclicAt_zero h.shadow_lt] at hv

theorem look (h : r.Holds shadow (v::unseen) free) : r.Holds (r.wrapIndex (shadow+1)) unseen free where
  shadow_lt := mod_lt _ (zero_lt_of_lt h.shadow_lt)
  fits := lt_of_succ_lt h.fits
  consumerIndex_eq := by rw [h.consumerIndex_eq,wrapIndex,mod_add_mod,length_cons,Nat.add_right_comm,Nat.add_assoc]
  producerIndex_eq := by
    rw [h.producerIndex_eq,wrapIndex,mod_add_mod,cons_append,length_cons,Nat.add_right_comm,Nat.add_assoc]
  reads := (cyclicReads_cons.mp h.reads).2
variable (h : r.Holds shadow unseen free)
include h
theorem produce (hroom : unseen.length+free.length+1 < r.numElements) :
    (r.produce v).Holds shadow unseen (free++[v]) := by
  refine ⟨?_,?_,?_,?_,?_⟩
  · rw [numElements_produce]
    exact h.shadow_lt
  · rw [numElements_produce,length_append,length_append,length_singleton]
    omega
  · rw [numElements_produce]
    exact h.consumerIndex_eq
  · show (r.producerIndex+1)%(r.produce v).numElements=_
    rw [numElements_produce,h.producerIndex_eq,mod_add_mod,← append_assoc]
    simp [Nat.add_assoc]
  · rw [← append_assoc]
    show CyclicReads (r.buf.set r.producerIndex v) shadow (unseen++free++[v])
    rw [h.producerIndex_eq]
    exact h.reads.push h.fits

theorem free_eq : cyclicSegment r.buf r.consumerIndex r.consumerAvailable=free := by
  rw [h.available_eq.1,h.consumerIndex_eq]
  exact (cyclicReads_append.mp h.reads).2

theorem unseen_eq : cyclicSegment r.buf shadow unseen.length=unseen := (cyclicReads_append.mp h.reads).1
end Holds

theorem holds_filled {l rest : List α} (hrest : rest≠[]) : (filled l rest).Holds 0 [] l := by
  have hlt : l.length<(l++rest).length := by
    rw [length_append]
    have hpos := length_pos_iff.mpr hrest
    omega
  refine ⟨zero_lt_of_lt hlt,hlt,(zero_mod _).symm,?_, cyclicReads_prefix l rest⟩
  rw [Nat.zero_add]
  exact (mod_eq_of_lt hlt).symm

/-- One use of a ring by a side that asks first, `some v` to put and `none` to take, with what was
put and taken so far. -/
def use (s : Ring α × List α × List α) : Option α → Ring α × List α × List α
  | some v => if 0 < s.1.producerAvailable then (s.1.produce v,s.2.1++[v],s.2.2) else s
  | none => if 0 < s.1.consumerAvailable then (s.1.consume.2,s.2.1,s.2.2++[s.1.consume.1]) else s

def IsQueue (n : Nat) (s : Ring α × List α × List α) : Prop :=
  ∃ free, s.1.Holds s.1.consumerIndex [] free ∧ s.2.1=s.2.2++free ∧ s.1.numElements=n+1

theorem IsQueue.use {n : Nat} {s : Ring α × List α × List α} (h : IsQueue n s) (a : Option α) : IsQueue n (use s a) := by
  obtain ⟨free,hfree,hput,hn⟩ := h
  rw [Ring.use.eq_def]
  cases a <;> dsimp only <;> split <;> rename_i hask
  · rw [hfree.available_eq.1] at hask
    obtain ⟨v,rest,rfl⟩ := exists_cons_of_length_pos hask
    refine ⟨rest,hfree.consumerAdvance.look,?_,hn⟩
    simp [consume,hfree.getElementAt_consumerIndex,hput]
  · exact ⟨free,hfree,hput,hn⟩
  · rw [hfree.available_eq.2] at hask
    exact ⟨_,hfree.produce (by simp; omega),by simp [hput],by simp [hn]⟩
  · exact ⟨free,hfree,hput,hn⟩

/-- A ring is a queue of one element less than its positions: what is put is taken in order, once. -/
theorem uses_fifo (n : Nat) (v : α) (as : List (Option α)) :
    let s : Ring α × List α × List α := as.foldl use (init (n+1) v,[],[])
    s.2.1=s.2.2++cyclicSegment s.1.buf s.1.consumerIndex s.1.consumerAvailable ∧
      s.1.producerAvailable+s.1.consumerAvailable=n := by
  have hinit : IsQueue n (init (n+1) v,[],[]) :=
    ⟨[],holds_filled (l:=[]) (by simp : replicate (n+1) v≠[]),rfl,length_replicate⟩
  obtain ⟨free,hfree,hput,hn⟩ := foldlRecOn as use hinit fun _ h a _ => h.use a
  have hlen := hfree.length_lt
  rw [hn,length_nil] at hlen
  refine ⟨by rw [hfree.free_eq,hput],?_⟩
  rw [hfree.available_eq.1,hfree.available_eq.2,hn]
  omega
end Ring
end P4Benchmarks.Ndp
