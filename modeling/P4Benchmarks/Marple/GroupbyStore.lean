import Mathlib.Data.List.Induction
import P4Benchmarks.Marple.Groupby
/-!
# The key-value store of a groupby stage

The registers of a stage are a direct-mapped table of keys and values.  A slot whose stored key is
zero counts as empty, so the key zero is never evicted: its value goes to the next key of the slot.
-/
namespace P4Benchmarks.Marple
open Lib List
def Registers.zero : Registers := ⟨fun _ => .filled 0,fun _ => .filled 0⟩

structure Update where
  (key passed left evictedKey evictedValue : List (BitVec 32))
deriving DecidableEq

def isZero (key : List (BitVec 32)) : Bool := key.all (·==0)

def Update.report (u : Update) : Option (List (BitVec 32) × List (BitVec 32)) :=
  if isZero u.evictedKey then none else some (u.evictedKey,u.evictedValue)
namespace Groupby
variable (stage : Groupby) (update : Env → Env × List Emission)
def keyOf (pkt : Env) : List (BitVec 32) := stage.keyFields.map pkt.int
variable (regs : Registers) (i : Fin tableSize)
def storedKey : List (BitVec 32) := stage.keyFields.map fun field => regs.regK field i
def storedValue : List (BitVec 32) := stage.valueFields.map fun field => regs.regV field i
def initialValue : List (BitVec 32) := stage.valueFields.map fun _ => 0

def record (pkt : Env) : Update where
  key := stage.keyOf pkt
  passed := stage.valueFields.map (stage.start regs pkt).int
  left := stage.valueFields.map (stage.action update regs pkt).env.int
  evictedKey := stage.keyFields.map (stage.action update regs pkt).evictedKey
  evictedValue := stage.valueFields.map (stage.action update regs pkt).evictedValue

structure Trace where
  regs : Registers
  updates : List Update

def Trace.step (t : Trace) (pkt : Env) : Trace where
  regs := (stage.action update t.regs pkt).registers
  updates := stage.record update t.regs pkt::t.updates
variable (pkts : List Env)
def trace : Trace := pkts.foldl (Trace.step stage update) ⟨.zero,[]⟩
variable (us : List Update) (key : List (BitVec 32))
def resident : Option Update := us.find? fun u => stage.hash u.key=stage.hash key

def valueDue : List (BitVec 32) :=
  match stage.resident us key with
  | some u => if u.key=key then u.left else stage.initialValue
  | none => stage.initialValue

def reportDue : Option (List (BitVec 32) × List (BitVec 32)) :=
  match stage.resident us key with
  | some u => if u.key=key then none else some (u.key,u.left)
  | none => none

def Exact (u : Update) : Prop := u.passed=stage.valueDue us u.key ∧ u.report=stage.reportDue us u.key

/-- What became of an update `u` before the updates `later` (latest first): it is still resident,
its value was passed to the next update of its own key, or it was reported. -/
def Kept (later : List Update) (u : Update) : Prop :=
  (∀ w ∈ later, stage.hash w.key≠stage.hash u.key) ∨ ∃ after w before, later=after++w::before ∧
      (∀ v ∈ before, stage.hash v.key≠stage.hash u.key) ∧ stage.hash w.key=stage.hash u.key ∧
      (w.key=u.key ∧ w.passed=u.left ∨ w.key≠u.key ∧ w.report=some (u.key,u.left))

/-- Every update gets the value of its own key, every replaced pair of another key is reported
exactly by the update that replaces it, and no update is lost. -/
def StoreExact : Prop :=
  (∀ later u us', us=later++u::us' → stage.Exact us' u) ∧ ∀ later u us', us=later++u::us' → stage.Kept later u

def ReplacesZero : Prop := ∃ u, stage.resident us key=some u ∧ u.key≠key ∧ isZero u.key
def ZeroUndisturbed : Prop := ∀ later u us', us=later++u::us' → ¬ stage.ReplacesZero us' u.key
variable {stage update}
theorem isZero_map_zero {α : Type} (xs : List α) : isZero (xs.map fun _ => 0) := by simp [isZero]
variable {regs : Registers}
theorem ok_iff {pkt : Env} {i : Fin tableSize} : stage.ok regs pkt i ↔
      stage.storedKey regs i=stage.keyOf pkt ∨ isZero (stage.storedKey regs i) := by
  have hmatch : stage.keyMatches regs pkt i ↔ stage.storedKey regs i=stage.keyOf pkt := by
    rw [keyMatches_iff,storedKey,keyOf,map_inj_left]
  have hnone : stage.noKeyPresent regs i=isZero (stage.storedKey regs i) := by
    simp [noKeyPresent,isZero,storedKey,Function.comp_def]
  rw [ok,Bool.or_eq_true,hmatch,hnone]

theorem record_of_ok (update : Env → Env × List Emission) {pkt : Env}
    (h : stage.ok regs pkt (stage.hashTableIndex pkt)) :
    (stage.record update regs pkt).passed=stage.storedValue regs (stage.hashTableIndex pkt) ∧
      (stage.record update regs pkt).report=none := by
  constructor
  · refine map_congr_left fun x hx => ?_
    simp [start,if_pos hx,if_pos h]
  · have hzero : (stage.record update regs pkt).evictedKey=stage.keyFields.map fun _ => 0 := by
      simp [record,action,if_pos h]
    rw [Update.report,hzero,if_pos (isZero_map_zero _)]

theorem record_of_not_ok (update : Env → Env × List Emission) {pkt : Env}
    (h : ¬ stage.ok regs pkt (stage.hashTableIndex pkt)) :
    (stage.record update regs pkt).passed=stage.initialValue ∧
      (stage.record update regs pkt).report=some (stage.storedKey regs (stage.hashTableIndex pkt),
          stage.storedValue regs (stage.hashTableIndex pkt)) := by
  constructor
  · refine map_congr_left fun x hx => ?_
    simp [start,if_pos hx,if_neg h]
  · have hkey : (stage.record update regs pkt).evictedKey =
        stage.storedKey regs (stage.hashTableIndex pkt) := by
      simp [record,action,if_neg h,storedKey]
    have hvalue : (stage.record update regs pkt).evictedValue = stage.storedValue regs (stage.hashTableIndex pkt) := by
      simp [record,action,if_neg h,storedValue]
    have hnz : ¬ isZero (stage.storedKey regs (stage.hashTableIndex pkt)) := fun hz => h (ok_iff.mpr (.inr hz))
    rw [Update.report,hkey,hvalue,if_neg hnz]
variable (pkt : Env) (i : Fin tableSize)
theorem storedKey_action : stage.storedKey (stage.action update regs pkt).registers i =
      if i=stage.hashTableIndex pkt then stage.keyOf pkt else stage.storedKey regs i := by
  split_ifs with hi
  all_goals
    refine map_congr_left fun x hx => ?_
    simp [action,hx,Register.write_apply,Fin.val_inj,hi]

theorem storedValue_action : stage.storedValue (stage.action update regs pkt).registers i =
      if i=stage.hashTableIndex pkt then (stage.record update regs pkt).left
      else stage.storedValue regs i := by
  split_ifs with hi
  all_goals
    refine map_congr_left fun x hx => ?_
    simp [action,hx,Register.write_apply,Fin.val_inj,hi]

def Stored (stage : Groupby) (t : Trace) (i : Fin tableSize) : Prop :=
  match t.updates.find? fun u => stage.hash u.key=i with
  | some u => stage.storedKey t.regs i=u.key ∧ stage.storedValue t.regs i=u.left
  | none => isZero (stage.storedKey t.regs i) ∧
      stage.storedValue t.regs i=stage.initialValue

theorem Stored.step {t : Trace} {i : Fin tableSize} (h : stage.Stored t i) (pkt : Env) :
    stage.Stored (t.step stage update pkt) i := by
  unfold Stored at h ⊢
  simp only [Trace.step,storedKey_action,storedValue_action]
  by_cases hi : i=stage.hashTableIndex pkt
  · have hhash : stage.hash (stage.record update t.regs pkt).key=i := hi.symm
    rw [List.find?_cons_of_pos (by simpa using hhash)]
    exact ⟨if_pos hi,if_pos hi⟩
  · have hhash : stage.hash (stage.record update t.regs pkt).key≠i := fun hk => hi hk.symm
    rw [List.find?_cons_of_neg (by simpa using hhash),if_neg hi,if_neg hi]
    exact h

theorem trace_concat : stage.trace update (pkts++[pkt]) = (stage.trace update pkts).step stage update pkt := by
  simp [trace]

theorem stored_trace : stage.Stored (stage.trace update pkts) i := by
  induction pkts using reverseRecOn with
  | nil => exact ⟨isZero_map_zero stage.keyFields,rfl⟩
  | append_singleton pkts pkt ih =>
    rw [trace_concat]
    exact ih.step pkt

theorem exact_record_iff {t : Trace} (h : ∀ i, stage.Stored t i) (pkt : Env) :
    stage.Exact t.updates (stage.record update t.regs pkt) ↔ ¬ stage.ReplacesZero t.updates (stage.keyOf pkt) := by
  have hslot := h (stage.hashTableIndex pkt)
  unfold Stored at hslot
  have hkey : (stage.record update t.regs pkt).key=stage.keyOf pkt := rfl
  have hres : stage.resident t.updates (stage.keyOf pkt) =
      t.updates.find? fun u => stage.hash u.key=stage.hashTableIndex pkt := rfl
  unfold Exact ReplacesZero valueDue reportDue
  rw [hkey,hres]
  cases hu : t.updates.find? fun u => stage.hash u.key=stage.hashTableIndex pkt with
  | none =>
    rw [hu] at hslot
    have hok := record_of_ok update (ok_iff.mpr (.inr hslot.1))
    simp [hok.1,hok.2,hslot.2]
  | some u =>
    rw [hu] at hslot
    obtain ⟨hstored,hvalue⟩ := hslot
    by_cases hsame : u.key=stage.keyOf pkt
    · have hok := record_of_ok update (ok_iff.mpr (.inl (hstored.trans hsame)))
      simp [hok.1,hok.2,hvalue,hsame]
    · by_cases hzero : isZero u.key
      · -- the key zero looks like an empty slot
        have hok := record_of_ok update (ok_iff.mpr (.inr (hstored ▸ hzero)))
        simp [hok.2,hsame,hzero]
      · have hnot : ¬ stage.ok t.regs pkt (stage.hashTableIndex pkt) := by
          rw [ok_iff,hstored]
          exact not_or.mpr ⟨hsame,hzero⟩
        have hev := record_of_not_ok update hnot
        simp [hev.1,hev.2,hstored,hvalue,hsame,hzero]

theorem updates_split {pkts : List Env} {later us : List Update} {u : Update}
    (h : (stage.trace update pkts).updates=later++u::us) :
    ∃ pre pkt, us=(stage.trace update pre).updates ∧ u=stage.record update (stage.trace update pre).regs pkt := by
  induction pkts using reverseRecOn generalizing later with
  | nil => simp [trace] at h
  | append_singleton pkts pkt ih =>
    rw [trace_concat] at h
    cases later with
    | nil =>
      obtain ⟨hu,hus⟩ := List.cons.inj h
      exact ⟨pkts,pkt,hus.symm,hu.symm⟩
    | cons w later => exact ih (List.cons.inj h).2

private theorem split_at_last {α : Type} (p : α → Prop) (xs : List α) :
    (∀ x ∈ xs, ¬ p x) ∨ ∃ ys x zs, xs=ys++x::zs ∧ (∀ z ∈ zs, ¬ p z) ∧ p x := by
  induction xs with
  | nil => exact .inl (by simp)
  | cons x xs ih =>
    rcases ih with hnone | ⟨ys,y,zs,rfl,hzs,hy⟩
    · by_cases hx : p x
      · exact .inr ⟨[],x,xs,rfl,hnone,hx⟩
      · exact .inl (forall_mem_cons.mpr ⟨hx,hnone⟩)
    · exact .inr ⟨x::ys,y,zs,rfl,hzs,hy⟩

theorem kept_of_exact {us : List Update} (h : ∀ later u us', us=later++u::us' → stage.Exact us' u)
    {later us' : List Update} {u : Update} (hus : us=later++u::us') : stage.Kept later u := by
  rcases split_at_last (fun w => stage.hash w.key=stage.hash u.key) later with
    hnone | ⟨after,w,before,rfl,hbefore,hw⟩
  · exact .inl hnone
  · refine .inr ⟨after,w,before,rfl,hbefore,hw,?_⟩
    have hres : stage.resident (before++u::us') w.key=some u := by
      have hno : before.find? (fun v => stage.hash v.key=stage.hash w.key)=none := by
        rw [List.find?_eq_none]
        intro v hv
        simpa [hw] using hbefore v hv
      rw [resident,List.find?_append,hno,Option.none_or]
      exact List.find?_cons_of_pos (by simpa using hw.symm)
    obtain ⟨hpassed,hreport⟩ := h after w (before++u::us') (by rw [hus]; simp)
    simp only [valueDue,reportDue,hres] at hpassed hreport
    by_cases hkey : u.key=w.key
    · exact .inl ⟨hkey.symm,by rw [hpassed,if_pos hkey]⟩
    · exact .inr ⟨fun heq => hkey heq.symm,by rw [hreport,if_neg hkey]⟩
end Groupby
open Groupby in
/-- For every sequence of packets, the store is exact if and only if no key takes the slot of the
key zero. -/
theorem storeExact_iff_zeroUndisturbed (stage : Groupby) (update : Env → Env × List Emission) (pkts : List Env) :
    stage.StoreExact (stage.trace update pkts).updates ↔ stage.ZeroUndisturbed (stage.trace update pkts).updates := by
  have hexact : (∀ later u us', (stage.trace update pkts).updates=later++u::us' →
      stage.Exact us' u) ↔ stage.ZeroUndisturbed (stage.trace update pkts).updates := by
    refine forall_congr' fun later => forall_congr' fun u => forall_congr' fun us' => ?_
    refine forall_congr' fun hus => ?_
    obtain ⟨pre,pkt,rfl,rfl⟩ := updates_split hus
    exact exact_record_iff (stored_trace pre) pkt
  rw [StoreExact,hexact,and_iff_left_iff_imp,← hexact]
  exact fun hall _ _ _ hus => kept_of_exact hall hus

private def counter : Groupby where
  keyFields := ["srcip"]
  valueFields := ["count"]
  hash := fun _ => ⟨0,Nat.zero_lt_succ 1023⟩

private def countPacket (env : Env) : Env × List Emission := (env.setInt "count" (env.int "count" + 1),[])
private def fromSrcip (x : BitVec 32) : Env := ⟨fun _ => x,fun _ => false⟩

/-- The packet of key 7 gets the count of key 0, which is not reported. -/
theorem zero_key_merged : ¬ counter.StoreExact (counter.trace countPacket [fromSrcip 0,fromSrcip 7]).updates := by
  intro h
  have hus : (counter.trace countPacket [fromSrcip 0,fromSrcip 7]).updates =
      [⟨[7],[1],[2],[0],[0]⟩,⟨[0],[0],[1],[0],[0]⟩] := by decide +kernel
  have hpassed := (h.1 [] _ _ hus).1
  exact absurd hpassed (by decide +kernel)


end P4Benchmarks.Marple
