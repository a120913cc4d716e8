import P4Benchmarks.HashPipe.Pipe
/-!
# Count-min and conservative update

`CM.h` and `CU.h`, with the same hash functions.
-/
namespace P4Benchmarks.Elastic
open HashPipe Function List
abbrev Counters (d w : Nat) := Fin d → Fin w → Int
variable {κ : Type} {d w : Nat} (hash : Fin d → κ → Fin w) (c : Counters d w) (key : κ) (f : Int)
def minVal : Int := (finRange d).foldl (fun ret i => min ret (c i (hash i key))) (2^30)
def CMSketch.query : Int := minVal hash c key
def CUSketch.query : Int := minVal hash c key
def CMSketch.insert : Counters d w := fun i => update (c i) (hash i key) (wrap (c i (hash i key)+f))

def CUSketch.insert : Counters d w :=
  let temp := wrap (minVal hash c key+f)
  fun i => update (c i) (hash i key) (max (c i (hash i key)) temp)

def insertEach (insert : Counters d w → κ → Int → Counters d w) (l : List (κ × Int)) : Counters d w :=
  l.foldl (fun c u => insert c u.1 u.2) fun _ _ => 0

def trueCount [DecidableEq κ] (l : List (κ × Int)) : Int := ((l.filter (·.1=key)).map Prod.snd).sum

structure Between (cm cu : Counters d w) (count : κ → Int) (total : Int) : Prop where
  count_nonneg : ∀ x, 0 ≤ count x
  count_le_total : ∀ x, count x≤total
  count_le : ∀ i x, count x ≤ cu i (hash i x)
  nonneg : ∀ i j, 0 ≤ cu i j
  le : ∀ i j, cu i j ≤ cm i j
  le_total : ∀ i j, cm i j≤total
variable {hash c key f} {cm cu : Counters d w} {count : κ → Int} {total : Int}
theorem le_minVal {v : Int} : v ≤ minVal hash c key ↔ v≤2^30 ∧ ∀ i, v ≤ c i (hash i key) := by
  have hfold (l : List (Fin d)) (a : Int) :
      v≤l.foldl (fun ret i => min ret (c i (hash i key))) a ↔ v≤a ∧ ∀ i ∈ l, v ≤ c i (hash i key) := by
    induction l generalizing a with
    | nil => simp
    | cons i l ih => simp [ih,and_assoc]
  simp [minVal,hfold]

theorem Between.insert [DecidableEq κ] (h : Between hash cm cu count total) (key : κ)
    (hf : 0≤f) (htotal : total+f<2^30) : Between hash (CMSketch.insert hash cm key f)
      (CUSketch.insert hash cu key f) (update count key (count key+f)) (total+f) := by
  obtain ⟨hmax,hrow⟩ := le_minVal.mp (le_refl (minVal hash cu key))
  have hcount : count key ≤ minVal hash cu key :=
    le_minVal.mpr ⟨by linarith [h.count_le_total key],fun i => h.count_le i key⟩
  have hnonneg := h.count_nonneg key
  have htemp : wrap (minVal hash cu key+f)=minVal hash cu key+f :=
    wrap_of_lt (by omega) (by linarith [h.count_le_total key])
  have hwrap (i : Fin d) : wrap (cm i (hash i key)+f)=cm i (hash i key)+f := by
    have := h.nonneg i (hash i key)
    have := h.le i (hash i key)
    have := h.le_total i (hash i key)
    exact wrap_of_lt (by omega) (by omega)
  obtain ⟨h₁,h₂,h₃,h₄,h₅,h₆⟩ := h
  unfold CMSketch.insert CUSketch.insert
  simp only [htemp,hwrap]
  constructor <;> grind

theorem between_insertEach [DecidableEq κ] (l : List (κ × Int)) (hf : ∀ u ∈ l, 0≤u.2)
    (htotal : (l.map Prod.snd).sum<2^30) : Between hash (insertEach (CMSketch.insert hash) l)
      (insertEach (CUSketch.insert hash) l) (trueCount · l) (l.map Prod.snd).sum := by
  induction l using reverseRecOn with
  | nil => constructor <;> simp [insertEach,trueCount]
  | append_singleton l u ih =>
    have hu : 0≤u.2 := hf u (by simp)
    simp only [map_append,sum_append,map_cons,map_nil,sum_singleton] at htotal ⊢
    have hstep := (ih (fun v hv => hf v (by simp [hv])) (by omega)).insert u.1 hu htotal
    have hcount : (trueCount · (l++[u]))=update (trueCount · l) u.1 (trueCount u.1 l+u.2) := by
      funext x
      by_cases hx : u.1=x <;> simp [trueCount,hx,Ne.symm]
    simpa [hcount,insertEach] using hstep

/-- A conservative update never counts too little, and never more than count-min. -/
theorem conservative_between [DecidableEq κ] (hash : Fin d → κ → Fin w) (l : List (κ × Int))
    (hf : ∀ u ∈ l, 0≤u.2) (htotal : (l.map Prod.snd).sum<2^30) (key : κ) :
    trueCount key l≤CUSketch.query hash (insertEach (CUSketch.insert hash) l) key ∧
      CUSketch.query hash (insertEach (CUSketch.insert hash) l) key ≤
        CMSketch.query hash (insertEach (CMSketch.insert hash) l) key := by
  have h : Between hash _ _ _ _ := between_insertEach l hf htotal
  obtain ⟨hmax,hrow⟩ := le_minVal.mp (le_refl (CUSketch.query hash _ key))
  exact ⟨le_minVal.mpr ⟨by linarith [h.count_le_total key],fun i => h.count_le i key⟩,
    le_minVal.mpr ⟨hmax,fun i => (hrow i).trans (h.le i _)⟩⟩

theorem between_threeInserts : (∀ u ∈ [(1,5),(2,7),(1,0)], (0 : Int)≤u.2) ∧
      trueCount 1 [(1,5),(2,7),(1,0)] ≤ CUSketch.query (fun (_ : Fin 2) (_ : Nat) => (0 : Fin 3))
        (insertEach (CUSketch.insert fun _ _ => 0) [(1,5),(2,7),(1,0)]) 1 :=
  ⟨by decide,(conservative_between _ _ (by decide) (by decide) 1).1⟩
end P4Benchmarks.Elastic
