import P4Benchmarks.Lib.SlidingCount
import P4Benchmarks.Blink.Ingress
/-! # What the sliding window counts -/
namespace P4Benchmarks.Blink
open Lib Lib.SlidingCount List Register
theorem toNat_swBinsDuration : swBinsDuration.toNat=78 := by decide

theorem shiftOf_eq (gap : BitVec 19) : shiftOf gap=min (gap.toNat/78) 5 := by
  have h1 : swBinsDuration.toNat=78 := by decide
  have h2 : (2*swBinsDuration).toNat=156 := by decide
  have h3 : (3*swBinsDuration).toNat=234 := by decide
  have h4 : (4*swBinsDuration).toNat=312 := by decide
  have h5 : (5*swBinsDuration).toNat=390 := by decide
  unfold shiftOf
  simp only [BitVec.lt_def,h1,h2,h3,h4,h5]
  split_ifs <;> omega

theorem nextIndex_toNat (i : BitVec 4) (h : i.toNat<10) : (nextIndex i).toNat=next 10 i.toNat := by
  revert i
  decide

theorem nextIndex_lt (i : BitVec 4) : (nextIndex i).toNat<10 := by
  revert i
  decide

def binsOf (junk : Unspecified) (sw : Register 1000 6) (id : Prefix) : ℕ → BitVec 6 := fun i =>
  sw.read junk (id*10+i)

theorem binsOf_write (junk : Unspecified) (sw : Register 1000 6) (id : Prefix) (k : ℕ) (v : BitVec 6) {i : ℕ}
    (hi : i<10) : binsOf junk (sw.write (id*10+k) v) id i=Function.update (binsOf junk sw id) k v i := by
  unfold binsOf
  rw [read_write (by omega),Function.update_apply]
  simp [Nat.add_left_cancel_iff]
variable {id id' : Prefix}
theorem binsOf_write_of_ne (junk : Unspecified) (sw : Register 1000 6) (hid : id'≠id) {k : ℕ} (hk : k<10) (v : BitVec 6)
    {i : ℕ} (hi : i<10) : binsOf junk (sw.write (id*10+k) v) id' i=binsOf junk sw id' i := by
  have hne : id'.val≠id.val := fun h => hid (Fin.ext h)
  unfold binsOf
  rw [read_write (by omega),if_neg (by omega)]

/-- What is known of a cell whose last retransmission was at time `ret`, in bin `bin`, while the
current bin has number `index` and started at time `start`: either the retransmission is `a` bins
old, or it is out of the window. -/
def CellOk (start index ret bin : ℕ) : Option ℕ → Prop
  | some a => 0 < ret ∧ start ≤ ret+78*a ∧ ret+78*a ≤ start+78 ∧ bin=slot 10 index a
  | none => ret=0 ∨ ret+702 ≤ start

structure WindowOk (junk : Unspecified) (id : Prefix) (l : Sliding) (ret : CellId → BitVec 19)
    (bin : CellId → BitVec 4) (age : CellId → Option ℕ) : Prop where
  counts : Counts 10 (binsOf junk l.sw id) l.curSwIndex.toNat l.curSwSum age
  cell : ∀ c, CellOk l.lastSwTime.toNat l.curSwIndex.toNat (ret c).toNat (bin c).toNat (age c)
variable {junk : Unspecified} {id : Prefix} {l : Sliding} {ret : CellId → BitVec 19}
  {bin : CellId → BitVec 4} {age : CellId → Option ℕ}

theorem CellOk.ret_le {start index r b : ℕ} {a : Option ℕ} (h : CellOk start index r b a) : r ≤ start+78 := by
  cases a with
  | none => obtain h | h := h <;> omega
  | some k =>
    obtain ⟨-,-,hhi,-⟩ := h
    omega

theorem CellOk.older {start index r b : ℕ} {a : Option ℕ} (hindex : index<10)
    (ha : ∀ k, a=some k → k<10) (h : CellOk start index r b a) :
    CellOk (start+78) (next 10 index) r b (a.bind fun k => if k+1<10 then some (k+1) else none) := by
  cases a with
  | none =>
    obtain h | h := h
    · exact .inl h
    · exact .inr (by omega)
  | some k =>
    obtain ⟨hr,hlo,hhi,hb⟩ := h
    rw [Option.bind_some]
    split_ifs with hlt
    · refine ⟨hr,by omega,by omega,?_⟩
      rw [slot_next hindex hlt]
      exact hb
    · exact .inr (by omega)

theorem Sliding.shiftOne_lastSwTime (junk : Unspecified) (id : Prefix) (l : Sliding)
    (hroom : l.lastSwTime.toNat+78<2^19) : (l.shiftOne junk id).lastSwTime.toNat=l.lastSwTime.toNat+78 := by
  change (l.lastSwTime+swBinsDuration).toNat=_
  rw [BitVec.toNat_add,toNat_swBinsDuration,Nat.mod_eq_of_lt hroom]

theorem WindowOk.shiftOne (h : WindowOk junk id l ret bin age) (hroom : l.lastSwTime.toNat+78<2^19) :
    WindowOk junk id (l.shiftOne junk id) ret bin (older 10 age) := by
  have hindex := h.counts.index_lt
  have hnext := nextIndex_toNat l.curSwIndex hindex
  constructor
  · have hadvance := h.counts.advance
    rw [← hnext] at hadvance
    exact hadvance.congr fun i hi => binsOf_write junk l.sw id _ 0 hi
  · intro c
    rw [Sliding.shiftOne_lastSwTime junk id l hroom,show (l.shiftOne junk id).curSwIndex=nextIndex l.curSwIndex from rfl,hnext]
    exact (h.cell c).older hindex fun k => h.counts.age_lt c k

theorem WindowOk.shift (h : WindowOk junk id l ret bin age) (n : ℕ) (hroom : l.lastSwTime.toNat+78*n<2^19) :
    (∃ age', WindowOk junk id (l.shift junk id n) ret bin age') ∧
      (l.shift junk id n).lastSwTime.toNat=l.lastSwTime.toNat+78*n := by
  induction n generalizing l age with
  | zero => exact ⟨⟨age,h⟩,rfl⟩
  | succ n ih =>
    have htime := l.shiftOne_lastSwTime junk id (by omega)
    obtain ⟨hok,hlast⟩ := ih (h.shiftOne (by omega)) (by omega)
    refine ⟨hok,?_⟩
    change (Sliding.shift junk id n (l.shiftOne junk id)).lastSwTime.toNat=_
    omega

theorem binsOf_shift_of_ne {id' : Prefix} (hid : id'≠id) (l : Sliding) (n : ℕ) {i : ℕ}
    (hi : i<10) : binsOf junk (l.shift junk id n).sw id' i=binsOf junk l.sw id' i := by
  induction n generalizing l with
  | zero => rfl
  | succ n ih =>
    change binsOf junk (Sliding.shift junk id n (l.shiftOne junk id)).sw id' i=_
    rw [ih]
    exact binsOf_write_of_ne junk l.sw hid (nextIndex_lt _) 0 hi

theorem cellAt_injective {c c' : CellId} (h : (cellAt id c).val=(cellAt id' c').val) : id=id' ∧ c=c' := by
  change id.val*64+c.val=id'.val*64+c'.val at h
  constructor <;> apply Fin.ext <;> omega
variable {w : ℕ} (r : Register 6400 w)
theorem write_cellAt (id : Prefix) (c c' : CellId) (v : BitVec w) :
    r.write (cellAt id c) v (cellAt id c') = if c'=c then v else r (cellAt id c') := by
  rw [write_apply]
  by_cases hc : c'=c
  · rw [hc,if_pos rfl,if_pos rfl]
  · rw [if_neg hc,if_neg fun h => hc (cellAt_injective h).2]

theorem write_cellAt_of_ne (hid : id'≠id) (c c' : CellId) (v : BitVec w) :
    r.write (cellAt id c) v (cellAt id' c')=r (cellAt id' c') := by
  rw [write_apply,if_neg fun h => hid (cellAt_injective h).1]

theorem write_at (r : Register 100 w) (id : Prefix) (v : BitVec w) : r.write id v id=v := by rw [write_apply,if_pos rfl]

theorem write_at_of_ne (r : Register 100 w) (hid : id'≠id) (v : BitVec w) : r.write id v id'=r id' := by
  rw [write_apply,if_neg fun h => hid (Fin.ext h)]

structure Tracked (junk : Unspecified) (s : Registers) (id : Prefix) (age : CellId → Option ℕ) : Prop where
  window : WindowOk junk id (s.sliding id) (fun c => s.flowselectorLastRet (cellAt id c))
    (fun c => s.flowselectorLastRetBin (cellAt id c)) age
  empty : ∀ c, s.flowselectorKey (cellAt id c)=0 → s.flowselectorLastRet (cellAt id c)=0

structure Unchanged (junk : Unspecified) (id : Prefix) (s s' : Registers) : Prop where
  bins : ∀ i, i<10 → binsOf junk s'.sw id i=binsOf junk s.sw id i
  time : s'.swTime id=s.swTime id
  index : s'.swIndex id=s.swIndex id
  sum : s'.swSum id=s.swSum id
  key : ∀ c, s'.flowselectorKey (cellAt id c)=s.flowselectorKey (cellAt id c)
  lastRet : ∀ c, s'.flowselectorLastRet (cellAt id c)=s.flowselectorLastRet (cellAt id c)
  lastRetBin : ∀ c, s'.flowselectorLastRetBin (cellAt id c)=s.flowselectorLastRetBin (cellAt id c)
variable {s s' s'' : Registers} {c : CellId} {t : BitVec 19} {cfg : Config}
theorem Unchanged.refl (junk : Unspecified) (id : Prefix) (s : Registers) : Unchanged junk id s s :=
  ⟨fun _ _ => rfl,rfl,rfl,rfl,fun _ => rfl,fun _ => rfl,fun _ => rfl⟩

theorem Unchanged.trans (h : Unchanged junk id s s') (h' : Unchanged junk id s' s'') : Unchanged junk id s s'' where
  bins i hi := (h'.bins i hi).trans (h.bins i hi)
  time := h'.time.trans h.time
  index := h'.index.trans h.index
  sum := h'.sum.trans h.sum
  key c := (h'.key c).trans (h.key c)
  lastRet c := (h'.lastRet c).trans (h.lastRet c)
  lastRetBin c := (h'.lastRetBin c).trans (h.lastRetBin c)

theorem Tracked.congr (h : Tracked junk s id age) (hsame : Unchanged junk id s s') : Tracked junk s' id age := by
  have hsliding : s'.sliding id=⟨s'.sw,s.swTime id,s.swIndex id,s.swSum id⟩ := by
    unfold Registers.sliding
    rw [hsame.time,hsame.index,hsame.sum]
  refine ⟨⟨?_,fun c => ?_⟩,fun c hc => ?_⟩
  · rw [hsliding]
    exact h.window.counts.congr hsame.bins
  · rw [hsliding,hsame.lastRet,hsame.lastRetBin]
    exact h.window.cell c
  · rw [hsame.lastRet]
    rw [hsame.key] at hc
    exact h.empty c hc

theorem Registers.sliding_store (s : Registers) (id : Prefix) (l : Sliding) : (s.store id l).sliding id=l := by
  change Sliding.mk l.sw (s.swTime.write id l.lastSwTime id) (s.swIndex.write id l.curSwIndex id)
    (s.swSum.write id l.curSwSum id)=l
  rw [write_at,write_at,write_at]

def binStart (start t : ℕ) : ℕ :=
  if start+780<t then t
  else if start+78<t then start+78*((t-start)/78)
  else start

/-- The window catches up with time `t` at once: the gap is less than six bins, or long enough for
the window to be started anew. -/
def KeepsPace (start t : ℕ) : Prop := t < start+468 ∨ start+780<t

theorem binStart_le {start t : ℕ} (h : start≤t) : binStart start t≤t := by
  unfold binStart
  split_ifs <;> omega

theorem le_binStart {start t : ℕ} (h : start≤t) : t≤binStart start t+78 := by
  unfold binStart
  split_ifs <;> omega

theorem binsOf_reset (junk : Unspecified) (sw : Register 1000 6) (id : Prefix) (n i : ℕ) (hi : i<10) :
    binsOf junk ((range n).foldl (fun sw i => sw.write (id*swNbBins+i) 0) sw) id i =
      if i<n then 0 else binsOf junk sw id i := by
  induction n with
  | zero => rfl
  | succ n ih =>
    rw [range_succ,foldl_append]
    refine (binsOf_write junk _ id n 0 hi).trans ?_
    rw [Function.update_apply,ih]
    split_ifs <;> first | rfl | omega

theorem binsOf_reset_of_ne (junk : Unspecified) (sw : Register 1000 6)
    (hid : id'≠id) {n i : ℕ} (hn : n≤10) (hi : i<10) :
    binsOf junk ((range n).foldl (fun sw i => sw.write (id*swNbBins+i) 0) sw) id' i = binsOf junk sw id' i := by
  induction n with
  | zero => rfl
  | succ n ih =>
    rw [range_succ,foldl_append]
    exact (binsOf_write_of_ne junk _ hid (by omega) 0 hi).trans (ih (by omega))
end P4Benchmarks.Blink
