import Mathlib.Algebra.Order.BigOperators.Group.Finset
import Mathlib.Data.Fintype.Prod
import Mathlib.Tactic.Linarith
import P4Benchmarks.Lib.LinearSketch
/-!
# The pipe of the CPU version

`hashpipe.h`: a new key takes its cell in stage 0, and what it displaces goes through the other
stages, where the smaller value always moves on.
-/
namespace P4Benchmarks.HashPipe
open Lib Function
open List hiding beq_eq_decide
def wrap (v : Int) : Int := (v+2^31)%2^32-2^31

structure Cell (κ : Type) where
  key : κ
  val : Int

structure Dropped (κ : Type) extends Cell κ where
  compared : List Int

abbrev Table (κ : Type) (M : Nat) := Fin 6 × Fin M → Cell κ

structure Pipe (κ : Type) (M : Nat) where
  table : Table κ M
  dropped : List (Dropped κ)

def Pipe.start {κ : Type} {M : Nat} (empty : κ) : Pipe κ M := ⟨fun _ => ⟨empty,0⟩,[]⟩

section
variable {κ : Type} {M : Nat} [DecidableEq κ] (hash : Fin 6 → κ → Fin M)
def work : List (Fin 6) → Table κ M → κ → Int → List Int → Table κ M × List (Dropped κ)
  | [], T, x, y, compared => (T,[⟨⟨x,y⟩,compared⟩])
  | i::is, T, x, y, compared =>
    let c := T (i,hash i x)
    if c.key=x then (update T (i,hash i x) ⟨x,wrap (c.val+y)⟩,[])
    else if c.val=0 then (update T (i,hash i x) ⟨x,y⟩,[])
    else if c.val<y then work is (update T (i,hash i x) ⟨x,y⟩) c.key c.val (c.val::y::compared)
    else work is T x y (c.val::y::compared)

def Pipe.insert (s : Pipe κ M) (x : κ) : Pipe κ M :=
  let p := (0,hash 0 x)
  let c := s.table p
  if c.key=x then { s with table := update s.table p ⟨x,wrap (c.val+1)⟩ }
  else if c.val=0 then { s with table := update s.table p ⟨x,1⟩ }
  else
    let r := work hash [1,2,3,4,5] s.table c.key c.val []
    ⟨update r.1 p ⟨x,1⟩,s.dropped++r.2⟩
end
section
variable {κ : Type} {M : Nat} {T : Table κ M} {p q : Fin 6 × Fin M} {c : Cell κ} (a : κ → Int)
def weigh (T : Table κ M) : Int := ∑ p, a (T p).key*(T p).val
def weighDropped (l : List (Dropped κ)) : Int := (l.map fun d => a d.key*d.val).sum

theorem weigh_update (T : Table κ M) (p : Fin 6 × Fin M) (c : Cell κ) :
    weigh a (update T p c)+a (T p).key*(T p).val=weigh a T+a c.key*c.val := by
  unfold weigh
  simp only [Function.apply_update (fun _ (c : Cell κ) => a c.key*c.val)]
  exact sum_update_add (Finset.mem_univ p) (fun q => a (T q).key*(T q).val) _

theorem wrap_of_lt {v : Int} (hv : 0≤v) (hlt : v<2^31) : wrap v=v := by
  unfold wrap
  omega

theorem val_le_weigh (hT : ∀ p, 0≤(T p).val) (p : Fin 6 × Fin M) : (T p).val≤weigh (fun _ => 1) T := by
  have := Finset.single_le_sum (fun q _ => hT q) (Finset.mem_univ p)
  simpa [weigh] using this

theorem nonneg_update (hT : ∀ p, 0≤(T p).val) (hc : 0 ≤ c.val) (q : Fin 6 × Fin M) : 0≤(update T p c q).val := by
  by_cases hq : q=p
  · simpa [hq] using hc
  · simpa [hq] using hT q

theorem val_add_val_le (hT : ∀ p, 0≤(T p).val) (hne : q≠p) : (T q).val+(T p).val≤weigh (fun _ => 1) T := by
  have hle := val_le_weigh (nonneg_update hT (p := p) (c := ⟨(T p).key,0⟩) le_rfl) q
  have hsum := weigh_update (fun _ => 1) T p ⟨(T p).key,0⟩
  rw [Function.update_of_ne hne] at hle
  dsimp only at hsum
  omega

structure Dropped.Least (d : Dropped κ) : Prop where
  nonneg : 0≤d.val
  le : ∀ v ∈ d.compared, d.val≤v
end
variable {κ : Type} {M : Nat} [DecidableEq κ] (hash : Fin 6 → κ → Fin M)
theorem work_of_notMem {J : List (Fin 6)} {T : Table κ M} {x : κ} {y : Int} {l : List Int}
    {p : Fin 6 × Fin M} (hp : p.1 ∉ J) : (work hash J T x y l).1 p=T p := by
  induction J generalizing T x y l with
  | nil => rfl
  | cons i J ih =>
    obtain ⟨hi,his⟩ := ne_and_not_mem_of_not_mem_cons hp
    have hput (c : Cell κ) : update T (i,hash i x) c p=T p :=
      Function.update_of_ne (fun h => hi (by rw [h])) _ _
    unfold work
    dsimp only
    split_ifs <;> simp [ih his,hput]

theorem work_spec {J : List (Fin 6)} {T : Table κ M} {x : κ} {y : Int} {l : List Int} (hnodup : J.Nodup)
    (hT : ∀ p, 0≤(T p).val) (hy : 0≤y) (hle : ∀ v ∈ l, y≤v) (hlt : ∀ p, p.1 ∈ J → (T p).val+y<2^31) :
    (∀ p, 0≤((work hash J T x y l).1 p).val) ∧
    (∀ a, weigh a (work hash J T x y l).1+ weighDropped a (work hash J T x y l).2=weigh a T+a x*y) ∧
    ∀ d ∈ (work hash J T x y l).2, d.Least := by
  induction J generalizing T x y l with
  | nil => exact ⟨hT,fun a => by simp [work,weighDropped],fun d hd => by
      simp only [work,mem_singleton] at hd
      exact hd ▸ ⟨hy,hle⟩⟩
  | cons i J ih =>
    obtain ⟨hi,hnodup⟩ := nodup_cons.mp hnodup
    have hc := hT (i,hash i x)
    have hsmall := hlt (i,hash i x) mem_cons_self
    have hw (c : Cell κ) (a : κ → Int) := weigh_update a T (i,hash i x) c
    unfold work
    dsimp only
    split_ifs with hkey hzero hless
    · rw [wrap_of_lt (by omega) hsmall]
      refine ⟨nonneg_update hT (by dsimp only; omega),fun a => ?_,by simp⟩
      have := hw ⟨x,(T (i,hash i x)).val+y⟩ a
      rw [hkey] at this
      simp only [weighDropped,map_nil,sum_nil]
      linarith
    · refine ⟨nonneg_update hT hy,fun a => ?_,by simp⟩
      have := hw ⟨x,y⟩ a
      rw [hzero] at this
      simp only [weighDropped,map_nil,sum_nil]
      linarith
    · obtain ⟨hT',hsum,hleast⟩ := ih hnodup (x := (T (i,hash i x)).key)
        (l := (T (i,hash i x)).val::y::l)
        (nonneg_update hT (c := ⟨x,y⟩) (p := (i,hash i x)) hy) hc (by grind) fun p hp => by
          rw [Function.update_of_ne (by rintro rfl; exact hi hp)]
          have := hlt p (mem_cons_of_mem _ hp)
          omega
      refine ⟨hT',fun a => ?_,hleast⟩
      have := hw ⟨x,y⟩ a
      rw [hsum a]
      linarith
    · exact ih hnodup hT hy (by grind) fun p hp => hlt p (mem_cons_of_mem _ hp)

structure Pipe.Sound (s : Pipe κ M) (seen : List κ) : Prop where
  nonneg : ∀ p, 0≤(s.table p).val
  least : ∀ d ∈ s.dropped, d.Least
  conserved : ∀ a, weigh a s.table+weighDropped a s.dropped=(seen.map a).sum
omit [DecidableEq κ] in
theorem Pipe.Sound.weigh_le {s : Pipe κ M} {seen : List κ} (hs : s.Sound seen) {a : κ → Int}
    (ha : ∀ k, 0≤a k) : weigh a s.table≤(seen.map a).sum := by
  have hdropped : 0≤weighDropped a s.dropped := by
    refine sum_nonneg fun v hv => ?_
    obtain ⟨d,hd,rfl⟩ := mem_map.mp hv
    exact Int.mul_nonneg (ha _) (hs.least d hd).nonneg
  have := hs.conserved a
  omega

theorem Pipe.Sound.insert {s : Pipe κ M} {seen : List κ} (hs : s.Sound seen) (x : κ)
    (hlen : seen.length+1<2^31) : (s.insert hash x).Sound (seen++[x]) := by
  have hc := hs.nonneg (0,hash 0 x)
  have hweigh : weigh (fun _ => 1) s.table ≤ seen.length := by simpa using hs.weigh_le (a := fun _ => 1) (by simp)
  have hle := val_le_weigh hs.nonneg (0,hash 0 x)
  have hw (T : Table κ M) (c : Cell κ) (a : κ → Int) := weigh_update a T (0,hash 0 x) c
  have hsum (a : κ → Int) : ((seen++[x]).map a).sum=(seen.map a).sum+a x := by simp
  unfold Pipe.insert
  dsimp only
  split_ifs with hkey hzero
  · rw [wrap_of_lt (by omega) (by omega)]
    refine ⟨nonneg_update hs.nonneg (by dsimp only; omega),hs.least,fun a => ?_⟩
    have := hw s.table ⟨x,(s.table (0,hash 0 x)).val+1⟩ a
    rw [hkey] at this
    have := hs.conserved a
    rw [hsum]
    linarith
  · refine ⟨nonneg_update hs.nonneg (by simp),hs.least,fun a => ?_⟩
    have := hw s.table ⟨x,1⟩ a
    rw [hzero] at this
    have := hs.conserved a
    rw [hsum]
    linarith
  · have hrest (p : Fin 6 × Fin M) (hp : p.1 ∈ [1,2,3,4,5]) :
        (s.table p).val+(s.table (0,hash 0 x)).val<2^31 := by
      have := val_add_val_le hs.nonneg (q := p) (p := (0,hash 0 x)) fun h => by simp [h] at hp
      omega
    obtain ⟨hT,hwork,hleast⟩ := work_spec hash (l := []) (x := (s.table (0,hash 0 x)).key)
      (by decide) hs.nonneg hc (by simp) hrest
    have hkept := work_of_notMem hash (J := [1,2,3,4,5]) (T := s.table) (p := (0,hash 0 x))
      (x := (s.table (0,hash 0 x)).key) (y := (s.table (0,hash 0 x)).val) (l := []) (by simp)
    generalize work hash [1,2,3,4,5] s.table _ _ []=r at hT hwork hleast hkept ⊢
    refine ⟨nonneg_update hT (by simp),?_,fun a => ?_⟩
    · intro d hd
      exact (mem_append.mp hd).elim (hs.least d) (hleast d)
    · have hput := hw r.1 ⟨x,1⟩ a
      rw [hkept] at hput
      have hsplit : weighDropped a (s.dropped++r.2)=weighDropped a s.dropped+weighDropped a r.2 := by
        simp [weighDropped]
      have := hs.conserved a
      have := hwork a
      rw [hsum,hsplit]
      linarith

/-- The counts that `get_heavy_hitters` adds up, and what was dropped, after the keys `seen`. -/
def Pipe.Accounts (s : Pipe κ M) (seen : List κ) : Prop :=
  (∀ k, ∑ p, (if (s.table p).key=k then (s.table p).val else 0) ≤ seen.count k) ∧
    ∑ p, (s.table p).val+(s.dropped.map fun d => d.val).sum=seen.length ∧
    ∀ d ∈ s.dropped, ∀ v ∈ d.compared, d.val≤v

/-- With fewer inserts than an `int` can count. -/
theorem Pipe.accounts (empty : κ) (xs : List κ) (hlen : xs.length<2^31) :
    (xs.foldl (Pipe.insert hash) (.start empty)).Accounts xs := by
  have hsound : (xs.foldl (Pipe.insert hash) (.start empty)).Sound xs := by
    induction xs using reverseRecOn with
    | nil => exact ⟨fun _ => le_rfl,by simp [Pipe.start],by
        simp [Pipe.start,weigh,weighDropped]⟩
    | append_singleton xs x ih =>
      rw [length_append,length_singleton] at hlen
      rw [foldl_append]
      exact (ih (by omega)).insert hash x hlen
  refine ⟨fun k => ?_,?_,fun d hd => (hsound.least d hd).le⟩
  · have hcount : (xs.map fun x => if x=k then (1 : Int) else 0).sum=xs.count k := by
      simp [List.count,countP_eq_length_filter,sum_map_ite,beq_eq_decide]
    have := hsound.weigh_le (a := fun x => if x=k then 1 else 0) fun x => by split <;> decide
    simpa [weigh,hcount] using this
  · simpa [weigh,weighDropped] using hsound.conserved fun _ => 1

theorem Pipe.accounts_threeKeys : [1,2,1].length<2^31 ∧
    ([1,2,1].foldl (Pipe.insert (M := 1) fun _ _ => 0) (.start 0)).Accounts [1,2,1] :=
  ⟨by decide,Pipe.accounts _ _ _ (by decide)⟩

theorem Pipe.insert_replicate (n : Nat) :
    (replicate (n+1) true).foldl (Pipe.insert (M := 1) fun _ _ => 0) (.start false)=
      ⟨update (fun _ => ⟨false,0⟩) (0,0) ⟨true,wrap (n+1)⟩,[]⟩ := by
  induction n with
  | zero => rfl
  | succ n ih =>
    have hwrap : wrap (wrap (n+1)+1)=wrap ((n+1 : Nat)+1) := by
      unfold wrap
      omega
    rw [replicate_succ',foldl_append,ih]
    simp [Pipe.insert,hwrap]

theorem Pipe.not_accounts_replicate : ¬ ((replicate (2^31) true).foldl
    (Pipe.insert (M := 1) fun _ _ => 0) (.start false)).Accounts (replicate (2^31) true) := by
  obtain ⟨n,hn⟩ : ∃ n, 2^31=n+1 := ⟨2^31-1,by norm_num⟩
  rintro ⟨-,htotal,-⟩
  have hsum := weigh_update (M := 1) (fun _ => 1) (fun _ => ⟨false,0⟩) (0,0) ⟨true,wrap (n+1)⟩
  rw [hn,Pipe.insert_replicate] at htotal
  simp [weigh] at htotal hsum
  unfold wrap at *
  omega
end P4Benchmarks.HashPipe
