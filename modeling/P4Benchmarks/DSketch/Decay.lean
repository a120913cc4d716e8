import P4Benchmarks.Lib.Register
/-!
# dSketch: the decay of a cell

`variant_1/dsketch.p4`.  A packet that meets an old cell is recirculated with the counts to write back;
both rows share the header for them.
-/
namespace P4Benchmarks.DSketch
open Lib

def sketchCtrPerRow : Nat := 63356

structure Row where
  sketch : Register sketchCtrPerRow 32
  window : Register sketchCtrPerRow 8

structure Sketch where
  (row0 row1 : Row)

def slot0 (index : BitVec 32) : Nat := (index>>>16).toNat
def slot1 (index : BitVec 32) : Nat := (index.setWidth 16).toNat

/-- `decay_update`, which is valid or not; `setValid` leaves its fields as they are. -/
structure DecayUpdate where
  (countR0 countR1 : BitVec 32)
variable (junk : Unspecified) (ts : BitVec 8)
variable (row : Row) (i : Nat)
def Row.update : Row × BitVec 32 × BitVec 8 :=
  let val := row.sketch.read junk i
  let val := if val=0xffffffff then val else val+1
  ({ row with sketch := row.sketch.write i val },val,ts-row.window.read junk i)

def Row.decay (count : BitVec 32) : Row := ⟨row.sketch.write i count,row.window.write i ts⟩

def decayed (diff : BitVec 8) (count old : BitVec 32) : BitVec 32 :=
  if diff=0 then old else if diff=1 then count>>>1 else count

/-- `DSketch.apply`: the registers, the header if it is valid, and `flow_count`; `old` is what the fields
of the header hold before it is valid. -/
def apply (index : BitVec 32) (old : DecayUpdate) (s : Sketch) :
    Option DecayUpdate → Sketch × Option DecayUpdate × BitVec 32
  | none =>
    let r0 := s.row0.update junk ts (slot0 index)
    let r1 := s.row1.update junk ts (slot1 index)
    (⟨r0.1,r1.1⟩,
      if r0.2.2=0 ∧ r1.2.2=0 then none
      else some ⟨decayed r0.2.2 r0.2.1 old.countR0,decayed r1.2.2 r1.2.1 old.countR1⟩,
      if r1.2.1 ≤ r0.2.1 then r1.2.1 else r0.2.1)
  | some hdr =>
    (⟨s.row0.decay ts (slot0 index) hdr.countR0,s.row1.decay ts (slot1 index) hdr.countR1⟩,
      none,if hdr.countR1≤hdr.countR0 then hdr.countR1 else hdr.countR0)

def process (index : BitVec 32) (old : DecayUpdate) (s : Sketch) : Sketch :=
  let out := apply junk ts index old s none
  match out.2.1 with
  | none => out.1
  | some hdr => (apply junk ts index old out.1 (some hdr)).1

def Row.count : BitVec 32 := (row.update junk ts i).2.1
def Row.age : BitVec 8 := ts-row.window.read junk i

def Row.Decays (row row' : Row) (i : Nat) : Prop :=
  (row'.sketch.read junk i).toNat=(if row.age junk ts i=0 then (row.count junk ts i).toNat
    else if row.age junk ts i=1 then (row.count junk ts i).toNat/2 else 0) ∧
  row'.window.read junk i=ts
variable {junk ts} {row : Row} {i : Nat} (hi : i < sketchCtrPerRow)
include hi
theorem Row.decay_decays {count : BitVec 32} : row.Decays junk ts ((row.update junk ts i).1.decay ts i count) i ↔
    count.toNat=if row.age junk ts i=0 then (row.count junk ts i).toNat
      else if row.age junk ts i=1 then (row.count junk ts i).toNat/2 else 0 := by
  simp [Decays,decay,Register.read_write hi]

theorem Row.update_decays (h : row.age junk ts i=0) : row.Decays junk ts (row.update junk ts i).1 i := by
  have hwindow : row.window.read junk i=ts := by
    unfold age at h
    bv_omega
  simp [Decays,h,hwindow,update,count,Register.read_write hi]

theorem Row.decayed_decays (old : BitVec 32) : row.Decays junk ts ((row.update junk ts i).1.decay ts i
        (decayed (row.age junk ts i) (row.count junk ts i) old)) i ↔
      row.age junk ts i=1 ∨ row.age junk ts i=0 ∧ old=row.count junk ts i := by
  rw [decay_decays hi,decayed]
  split_ifs with h0 h1
  · simp [h0,BitVec.toNat_inj]
  · simp [h1,BitVec.toNat_ushiftRight,Nat.shiftRight_eq_div_pow]
  · have hpos : row.count junk ts i≠0 := by
      unfold count update
      dsimp only
      split_ifs with hmax
      · rw [hmax]
        decide
      · bv_omega
    simp
    bv_omega
omit hi
variable {index : BitVec 32} {s : Sketch} {old : DecayUpdate}
theorem process_of_recent (hage : s.row0.age junk ts (slot0 index)=0 ∧ s.row1.age junk ts (slot1 index)=0) :
    process junk ts index old s =
      ⟨(s.row0.update junk ts (slot0 index)).1,(s.row1.update junk ts (slot1 index)).1⟩ := by
  have hvalid : (apply junk ts index old s none).2.1=none := if_pos hage
  rw [process,hvalid]
  rfl

theorem process_of_old (hage : ¬(s.row0.age junk ts (slot0 index)=0 ∧ s.row1.age junk ts (slot1 index)=0)) :
    process junk ts index old s = ⟨(s.row0.update junk ts (slot0 index)).1.decay ts (slot0 index)
        (decayed (s.row0.age junk ts (slot0 index)) (s.row0.count junk ts (slot0 index)) old.countR0),
      (s.row1.update junk ts (slot1 index)).1.decay ts (slot1 index)
        (decayed (s.row1.age junk ts (slot1 index)) (s.row1.count junk ts (slot1 index)) old.countR1)⟩ := by
  have hvalid : (apply junk ts index old s none).2.1=some _ := if_neg hage
  rw [process,hvalid]
  rfl

/-- Whatever the header held: both cells decay exactly if both are up to date or both one window old. -/
theorem process_decays_iff (junk : Unspecified) (ts : BitVec 8) (index : BitVec 32) (s : Sketch)
    (h0 : slot0 index < sketchCtrPerRow) (h1 : slot1 index < sketchCtrPerRow) :
    (∀ old, s.row0.Decays junk ts (process junk ts index old s).row0 (slot0 index) ∧
      s.row1.Decays junk ts (process junk ts index old s).row1 (slot1 index)) ↔
    s.row0.age junk ts (slot0 index)=s.row1.age junk ts (slot1 index) ∧
      (s.row0.age junk ts (slot0 index)=0 ∨ s.row0.age junk ts (slot0 index)=1) := by
  by_cases hage : s.row0.age junk ts (slot0 index)=0 ∧ s.row1.age junk ts (slot1 index)=0
  · simp only [process_of_recent hage]
    exact ⟨fun _ => ⟨hage.1.trans hage.2.symm,.inl hage.1⟩,
      fun _ _ => ⟨Row.update_decays h0 hage.1,Row.update_decays h1 hage.2⟩⟩
  · simp only [process_of_old hage,Row.decayed_decays h0,Row.decayed_decays h1]
    constructor
    · intro h
      have hstale := h ⟨s.row0.count junk ts (slot0 index)+1,s.row1.count junk ts (slot1 index)+1⟩
      simp at hstale
      exact ⟨hstale.1.trans hstale.2.symm,.inr hstale.1⟩
    · rintro ⟨heq,hzero | hone⟩ old
      · exact absurd ⟨hzero,heq ▸ hzero⟩ hage
      · exact ⟨.inl hone,.inl (heq ▸ hone)⟩

def sevens (w : BitVec 8) : Row := ⟨.filled 7,.filled w⟩

theorem sevens_decay : slot0 0 < sketchCtrPerRow ∧ ∀ old,
    (sevens 0).Decays (fun _ => 0) 1 (process (fun _ => 0) 1 0 old ⟨sevens 0,sevens 0⟩).row0 (slot0 0) ∧
    (sevens 0).Decays (fun _ => 0) 1 (process (fun _ => 0) 1 0 old ⟨sevens 0,sevens 0⟩).row1 (slot1 0) :=
  ⟨by decide,(process_decays_iff (fun _ => 0) 1 0 ⟨sevens 0,sevens 0⟩ (by decide) (by decide)).mpr (by decide)⟩

/-- A cell that is two windows old keeps its count, and one that is up to date gets what the header held. -/
theorem sevens_not_decay :
    ¬(sevens 0).Decays (fun _ => 0) 2 (process (fun _ => 0) 2 0 ⟨0,0⟩ ⟨sevens 0,sevens 0⟩).row0 (slot0 0) ∧
    ¬(sevens 1).Decays (fun _ => 0) 1 (process (fun _ => 0) 1 0 ⟨0,0⟩ ⟨sevens 0,sevens 1⟩).row1 (slot1 0) := by
  unfold Row.Decays
  decide
end P4Benchmarks.DSketch
