import P4Benchmarks.Lib.LinearSketch
import P4Benchmarks.Blink.Evidence
/-! # The running sum of the sliding window -/
namespace P4Benchmarks.Blink
open Lib Finset Registers
variable {junk : Unspecified} {cfg : Config} {s s' s'' : Registers} {id : Prefix} {c : CellId} {t : BitVec 19}

def binSum (junk : Unspecified) (sw : Register 1000 6) (id : Prefix) : ℕ :=
  ∑ i ∈ range 10, (binsOf junk sw id i).toNat

theorem binSum_write (sw : Register 1000 6) {k : ℕ} (hk : k<10) (v : BitVec 6) :
    .ofNat 6 (binSum junk (sw.write (id*10+k) v) id)=.ofNat 6 (binSum junk sw id)-binsOf junk sw id k+v := by
  have hsum := sum_update_add (mem_range.mpr hk) (fun i => (binsOf junk sw id i).toNat) v.toNat
  have hbins : binSum junk (sw.write (id*10+k) v) id =
      ∑ i ∈ range 10, Function.update (fun i => (binsOf junk sw id i).toNat) k v.toNat i := by
    refine sum_congr rfl fun i hi => ?_
    rw [binsOf_write junk sw id k v (mem_range.mp hi),Function.update_apply,Function.update_apply]
    split_ifs <;> rfl
  unfold binSum at *
  bv_omega

structure Booked (junk : Unspecified) (s : Registers) (id : Prefix) : Prop where
  index : (s.swIndex id).toNat<10
  bin : ∀ c, (s.flowselectorLastRetBin (cellAt id c)).toNat<10
  sum : s.swSum id=.ofNat 6 (binSum junk s.sw id)

theorem Booked.congr (h : Booked junk s id) (hsame : Unchanged junk id s s') : Booked junk s' id where
  index := by rw [hsame.index]; exact h.index
  bin c := by rw [hsame.lastRetBin]; exact h.bin c
  sum := by
    rw [hsame.sum,h.sum,binSum,binSum]
    exact congrArg _ (sum_congr rfl fun i hi => by rw [hsame.bins i (mem_range.mp hi)])

def Keeps (junk : Unspecified) (id : Prefix) (s s' : Registers) : Prop :=
  Booked junk s id → Booked junk s' id ∧ ∀ id', id'≠id → Unchanged junk id' s s'

theorem Keeps.trans (h : Keeps junk id s s') (h' : Keeps junk id s' s'') : Keeps junk id s s'' := by
  intro hs
  obtain ⟨hs',hu⟩ := h hs
  obtain ⟨hs'',hu'⟩ := h' hs'
  exact ⟨hs'',fun id' hid => (hu id' hid).trans (hu' id' hid)⟩

theorem Keeps.of_unchanged (h : ∀ id', Unchanged junk id' s s') : Keeps junk id s s' :=
  fun hs => ⟨hs.congr (h id),fun id' _ => h id'⟩

theorem keeps_reset : Keeps junk id s (s.reset id t) := by
  refine fun hs => ⟨⟨?_,hs.bin,?_⟩,fun id' hid => reset_unchanged hid⟩
  · exact (congrArg BitVec.toNat (write_at s.swIndex id 0)).trans_lt (by decide)
  · refine (write_at s.swSum id 0).trans (congrArg (BitVec.ofNat 6) (sum_eq_zero fun i hi => ?_)).symm
    have hi := mem_range.mp hi
    exact congrArg BitVec.toNat ((binsOf_reset junk s.sw id 10 i hi).trans (if_pos hi))

theorem Sliding.shift_booked (n : ℕ) (l : Sliding) (hindex : l.curSwIndex.toNat<10)
    (hsum : l.curSwSum=.ofNat 6 (binSum junk l.sw id)) : (l.shift junk id n).curSwIndex.toNat<10 ∧
      (l.shift junk id n).curSwSum=.ofNat 6 (binSum junk (l.shift junk id n).sw id) := by
  induction n generalizing l with
  | zero => exact ⟨hindex,hsum⟩
  | succ n ih =>
    refine ih (l.shiftOne junk id) (nextIndex_lt _) ?_
    refine .trans ?_ (binSum_write l.sw (nextIndex_lt l.curSwIndex) 0).symm
    rw [← hsum]
    exact (BitVec.add_zero _).symm

theorem keeps_catchUp : Keeps cfg.junk id s (s.catchUp cfg id t) := by
  refine fun hs => ⟨?_,fun id' hid => catchUp_unchanged hid⟩
  unfold catchUp
  split_ifs
  · obtain ⟨hindex,hsum⟩ := (s.sliding id).shift_booked (shiftOf (t-s.swTime id)) hs.index hs.sum
    exact ⟨by simpa [store,write_at],hs.bin,by simpa [store,write_at]⟩
  · exact hs

theorem keeps_takeBack : Keeps cfg.junk id s (s.takeBack cfg id c t) := by
  refine fun hs => ⟨?_,fun id' hid => takeBack_unchanged hid fun _ => hs.bin c⟩
  unfold takeBack
  split_ifs
  · refine ⟨hs.index,hs.bin,?_⟩
    refine (write_at s.swSum id _).trans (.trans ?_ (binSum_write s.sw (hs.bin c) _).symm)
    rw [← hs.sum]
    change _=s.swSum id-binsOf cfg.junk s.sw id _+(binsOf cfg.junk s.sw id _-1)
    bv_omega
  · exact hs

theorem keeps_record : Keeps cfg.junk id s (s.record cfg id c t) := by
  refine fun hs => ⟨⟨hs.index,fun c' => ?_,?_⟩,fun id' hid => record_unchanged hid hs.index⟩
  · change (s.flowselectorLastRetBin.write (cellAt id c) (s.swIndex id) (cellAt id c')).toNat<10
    rw [write_cellAt]
    split_ifs
    exacts [hs.index,hs.bin c']
  · refine (write_at s.swSum id _).trans (.trans ?_ (binSum_write s.sw hs.index _).symm)
    rw [← hs.sum]
    change _=s.swSum id-binsOf cfg.junk s.sw id _+(binsOf cfg.junk s.sw id _+1)
    bv_omega

theorem keeps_occupy (key nep : BitVec 32) (ts : BitVec 9) : Keeps junk id s (s.occupy id c key nep ts) :=
  fun hs => ⟨⟨hs.index,hs.bin,hs.sum⟩,fun _ hid => occupy_unchanged hid key nep ts⟩
variable {m : Metadata} {p : Packet} {tcp : Tcp}
theorem keeps_meet (key nep : BitVec 32) (event : CellEvent) :
    Keeps cfg.junk m.id s (s.meet cfg m c key nep event) := by
  have touch (s : Registers) : Keeps cfg.junk m.id s (s.touch m.id c nep m.ingressTimestampSecond) :=
    .of_unchanged fun _ => touch_unchanged _ _
  cases event with
  | finish | evict => exact keeps_takeBack.trans (keeps_occupy _ _ _)
  | retransmission => exact keeps_takeBack.trans (keeps_record.trans (touch _))
  | progress => exact .trans (.of_unchanged fun _ => progress_unchanged) (touch _)
  | enter => exact keeps_occupy _ _ _
  | ignore => exact .of_unchanged fun _ => .refl _ _ _

theorem keeps_flowselector : Keeps cfg.junk m.id s (flowselector cfg s m p tcp).1 := by
  refine .trans ?_ (keeps_meet _ _ _)
  unfold slidingWindow
  split_ifs
  exacts [keeps_reset.trans keeps_catchUp,keeps_catchUp]

theorem keeps_monitor : Keeps cfg.junk m.id s (monitor cfg s m p).1 := by
  have same : Keeps cfg.junk m.id s s := .of_unchanged fun _ => .refl _ _ _
  unfold monitor
  split
  · exact same
  · split_ifs
    · refine .trans ?_ (.of_unchanged fun id' => trigger_sameCore.unchanged _ id')
      exact keeps_flowselector (m := { m with tcpPayloadLen := payloadLen p _ })
    · exact same
    · exact same

theorem keeps_ingress : Keeps cfg.junk (tag cfg s p).id s (ingress cfg s p).1 := by
  have refresh : Keeps cfg.junk (tag cfg s p).id s (s.refresh p.ingressGlobalTimestamp) := by
    refine .of_unchanged fun id' => ?_
    unfold Registers.refresh
    split_ifs <;> exact ⟨fun _ _ => rfl,rfl,rfl,rfl,fun _ => rfl,fun _ => rfl,fun _ => rfl⟩
  unfold ingress
  dsimp only
  split_ifs
  · exact refresh
  · refine (refresh.trans ?_).trans (.of_unchanged fun id' => forward_same.1.unchanged _ id')
    exact keeps_monitor (m := tag cfg (s.refresh p.ingressGlobalTimestamp) p)

theorem booked_run (cfg : Config) (thresholds : Register 100 6) (hops : Register 300 32) (ps : List Packet) (id : Prefix) :
    Booked cfg.junk (run cfg (.init thresholds hops) ps) id := by
  induction ps using List.reverseRecOn generalizing id with
  | nil =>
    have hzero : (0 : BitVec 4).toNat<10 := by decide
    refine ⟨hzero,fun _ => hzero,(congrArg (BitVec.ofNat 6) (sum_eq_zero fun i hi => ?_)).symm⟩
    have hi := mem_range.mp hi
    exact congrArg BitVec.toNat (Register.read_filled _ _ (by omega))
  | append_singleton ps p ih =>
    rw [run,List.foldl_append,List.foldl_cons,List.foldl_nil,← run]
    obtain ⟨hown,hother⟩ := keeps_ingress (ih _)
    by_cases hid : id=(tag cfg (run cfg (.init thresholds hops) ps) p).id
    · exact hid ▸ hown
    · exact (ih id).congr (hother id hid)

theorem window_bookkeeping (cfg : Config) (thresholds : Register 100 6) (hops : Register 300 32) (ps : List Packet)
    (id : Prefix) : ((run cfg (.init thresholds hops) ps).swIndex id).toNat < swNbBins ∧
    ((run cfg (.init thresholds hops) ps).swSum id).toNat =
      (∑ i ∈ range swNbBins, (binsOf cfg.junk (run cfg (.init thresholds hops) ps).sw id i).toNat)%64 ∧
    ∀ p, id≠(tag cfg (run cfg (.init thresholds hops) ps) p).id →
      Unchanged cfg.junk id (run cfg (.init thresholds hops) ps) (ingress cfg (run cfg (.init thresholds hops) ps) p).1 := by
  have hbooked := booked_run cfg thresholds hops ps
  refine ⟨(hbooked id).index,?_,fun p hid => (keeps_ingress (hbooked _)).2 id hid⟩
  rw [(hbooked id).sum]
  exact BitVec.toNat_ofNat _ _
end P4Benchmarks.Blink
