import P4Benchmarks.MvSketch.Bounds
/-!
# MV-Sketch in a switch

`mv_32.p4`: the ingress votes for the source address in one of 2048 buckets, whose sum, key and count
are in three registers.
-/
namespace P4Benchmarks.MvSketch.Switch
open Lib List Function
structure Registers where
  sketchKey : Fin 2048 → BitVec 32
  (sketchSum sketchCount : Fin 2048 → Int)

structure Headers where
  ingressPort : BitVec 9
  srcAddr : Option (BitVec 32)

inductive Forward where
  | setEgr (port : BitVec 9)
  | drop
variable (hash : BitVec 32 → Fin 2048) (forward : BitVec 9 → Forward) (r : Registers)
def myIngress (hdr : Headers) : Registers × Option Forward :=
  match hdr.srcAddr with
  | none => (r,none)
  | some srcAddr =>
    let i := hash srcAddr
    let tempsum := intOf (r.sketchSum i+1)
    let tempkey := r.sketchKey i
    let tempcount := r.sketchCount i
    ({ sketchSum := update r.sketchSum i tempsum
       sketchKey := if tempkey≠srcAddr ∧ tempcount=0 then update r.sketchKey i srcAddr else r.sketchKey
       sketchCount := update r.sketchCount i
        (if tempkey=srcAddr ∨ tempcount=0 then intOf (tempcount+1) else intOf (tempcount-1)) },
      some (forward hdr.ingressPort))

def start : Registers := ⟨fun _ => 0,fun _ => 0,fun _ => 0⟩
variable (packets : List Headers)
def run : Registers := packets.foldl (fun r hdr => (myIngress hash forward r hdr).1) start
def sourcesAt (i : Fin 2048) : List (BitVec 32) := (packets.filterMap Headers.srcAddr).filter (hash · = i)
def Registers.ballot (i : Fin 2048) : Ballot (BitVec 32) := ⟨r.sketchKey i,r.sketchCount i,r.sketchSum i⟩
variable {hash forward}
theorem ballot_myIngress {r : Registers} {hdr : Headers} {srcAddr : BitVec 32}
    (hsrc : hdr.srcAddr=some srcAddr) (i : Fin 2048) (hcount : 0 ≤ r.sketchCount i)
    (hle : r.sketchCount i ≤ r.sketchSum i) (hlt : r.sketchSum i+1<2^31) :
    (myIngress hash forward r hdr).1.ballot i =
      if hash srcAddr=i then (r.ballot i).vote srcAddr 1 else r.ballot i := by
  simp only [myIngress,hsrc,Registers.ballot,Ballot.vote]
  by_cases hi : hash srcAddr=i
  · subst hi
    have hsum := intOf_eq (x := r.sketchSum (hash srcAddr)+1) (by omega) (by omega)
    have hup := intOf_eq (x := r.sketchCount (hash srcAddr)+1) (by omega) (by omega)
    have hdown := intOf_eq (x := r.sketchCount (hash srcAddr)-1) (by omega) (by omega)
    grind
  · have hne : i≠hash srcAddr := Ne.symm hi
    simp only [if_neg hi,update_of_ne hne]
    split_ifs <;> simp [update_of_ne hne]
variable (hash forward) in
theorem counts_run (hlen : (packets.filterMap Headers.srcAddr).length<2^31) (i : Fin 2048) :
    ((run hash forward packets).ballot i).Counts (fun x => (sourcesAt hash packets i).count x) ∧
      ((run hash forward packets).ballot i).sum=(sourcesAt hash packets i).length := by
  induction packets using List.reverseRecOn with
  | nil => exact ⟨⟨fun _ => le_rfl,le_rfl,le_rfl,le_rfl,fun _ _ => le_rfl⟩,rfl⟩
  | append_singleton packets hdr ih =>
    rw [filterMap_append,length_append] at hlen
    obtain ⟨hcounts,hsum⟩ := ih (by omega)
    rw [run,foldl_append,foldl_cons,foldl_nil,← run]
    rw [sourcesAt,filterMap_append,filter_append,← sourcesAt]
    cases hsrc : hdr.srcAddr with
    | none => simpa [hsrc,myIngress] using ⟨hcounts,hsum⟩
    | some srcAddr =>
      have hle : (sourcesAt hash packets i).length≤(packets.filterMap Headers.srcAddr).length :=
        length_filter_le _ _
      rw [filterMap_cons_some hsrc,filterMap_nil] at hlen ⊢
      rw [length_singleton] at hlen
      have hlt : ((run hash forward packets).ballot i).sum+1<2^31 := by omega
      rw [ballot_myIngress hsrc i hcounts.margin_nonneg hcounts.margin_le_sum hlt]
      by_cases hi : hash srcAddr=i
      · rw [if_pos hi,filter_cons_of_pos (by simpa using hi),filter_nil,length_append,Ballot.sum_vote,hsum]
        refine ⟨?_,by simp⟩
        convert hcounts.vote (k := srcAddr) Int.one_nonneg using 1
        funext x
        by_cases hx : x=srcAddr <;> simp [hx,count_append,Ne.symm]
      · rw [if_neg hi,filter_cons_of_neg (by simpa using hi),filter_nil,append_nil]
        exact ⟨hcounts,hsum⟩

/-- With fewer than 2^31 IPv4 packets each bucket counts its packets, and its key and count say how
often a source can have been seen in it. -/
theorem buckets_bound_sources (hash : BitVec 32 → Fin 2048) (forward : BitVec 9 → Forward)
    (packets : List Headers) (hlen : (packets.filterMap Headers.srcAddr).length<2^31)
    (i : Fin 2048) :
    let r := run hash forward packets
    let sources := sourcesAt hash packets i
    0 ≤ r.sketchCount i ∧ r.sketchSum i=sources.length ∧ r.sketchCount i ≤ sources.count (r.sketchKey i) ∧
      2*(sources.count (r.sketchKey i) : Int) ≤ r.sketchSum i+r.sketchCount i ∧
      ∀ x, x≠r.sketchKey i → 2*(sources.count x : Int) ≤ r.sketchSum i-r.sketchCount i := by
  obtain ⟨hcounts,hsum⟩ := counts_run hash forward packets hlen i
  exact ⟨hcounts.margin_nonneg,hsum,hcounts.margin_le,hcounts.cand_le,hcounts.other_le⟩

private def threePackets : List Headers := [⟨1,some 7⟩,⟨2,none⟩,⟨1,some 9⟩,⟨1,some 7⟩]

theorem buckets_threePackets : (run (fun _ => 0) .setEgr threePackets).sketchKey 0=7 ∧
      0≤(run (fun _ => 0) .setEgr threePackets).sketchCount 0 :=
  ⟨by decide +kernel,(buckets_bound_sources (fun _ => 0) .setEgr threePackets (by decide) 0).1⟩
end P4Benchmarks.MvSketch.Switch
