import Mathlib.Data.List.Basic
import Mathlib.Data.List.Induction
/-! # Receivers of numbered packets -/
namespace P4Benchmarks.Lib.SequenceWindow
open List
variable {σ : Type} {step : σ → Nat → σ × Bool} {s : σ} {ns ms : List Nat} {n b : Nat}
def run (step : σ → Nat → σ × Bool) (s : σ) (ns : List Nat) : σ := ns.foldl (fun s n => (step s n).1) s

def accepted (step : σ → Nat → σ × Bool) : σ → List Nat → List Nat
  | _, [] => []
  | s, n::ns =>
    if (step s n).2 then n::accepted step (step s n).1 ns
    else accepted step (step s n).1 ns

def nextExpected (accepted : List Nat) : Nat := (accepted.getLast?.map (· + 1)).getD 0

def Windowed (b : Nat) (step : σ → Nat → σ × Bool) (s : σ) (ns : List Nat) : Prop :=
  ∀ pre n post, ns=pre++n::post → n<nextExpected (accepted step s pre)+b ∧ nextExpected (accepted step s pre)<n+b

theorem windowed_iff : Windowed b step s ns ↔ ∀ k : Fin ns.length,
    ns.get k<nextExpected (accepted step s (ns.take k))+b ∧ nextExpected (accepted step s (ns.take k))<ns.get k+b := by
  refine ⟨fun h k => h _ _ (ns.drop (k+1)) (by simp),?_⟩
  rintro h pre n post rfl
  simpa using h ⟨pre.length,by simp⟩

instance : Decidable (Windowed b step s ns) := decidable_of_iff _ windowed_iff.symm

/-- No number is accepted twice or after a later one, and a number is accepted if it arrives before
a later one has been accepted. -/
structure InOrder (step : σ → Nat → σ × Bool) (s : σ) (ns : List Nat) : Prop where
  increasing : (accepted step s ns).Pairwise (· < ·)
  complete : ∀ pre n post, ns=pre++n::post → (∀ m ∈ accepted step s pre, m≤n) → n ∈ accepted step s (pre++[n])


@[simp] theorem run_concat : run step s (ns++[n])=(step (run step s ns) n).1 := by simp [run]
theorem accepted_append : accepted step s (ns++ms)=accepted step s ns++accepted step (run step s ns) ms := by
  induction ns generalizing s with
  | nil => rfl
  | cons n ns ih =>
    have hrun : run step s (n::ns)=run step (step s n).1 ns := rfl
    rw [cons_append,accepted,accepted,hrun,ih]
    split <;> rfl

theorem accepted_concat : accepted step s (ns++[n]) =
      accepted step s ns ++ if (step (run step s ns) n).2 then [n] else [] := by
  rw [accepted_append]
  rfl


@[simp] theorem nextExpected_concat : nextExpected (ns++[n])=n+1 := by simp [nextExpected]
theorem lt_nextExpected (h : ns.Pairwise (· < ·)) {m : Nat} (hm : m ∈ ns) : m<nextExpected ns := by
  induction ns using List.reverseRecOn with
  | nil => cases hm
  | append_singleton ns n _ =>
    rw [nextExpected_concat]
    obtain ⟨-,-,hlast⟩ := pairwise_append.mp h
    rcases mem_append.mp hm with hm | hm
    · exact Nat.lt_succ_of_lt (hlast m hm n (mem_singleton_self n))
    · rw [mem_singleton.mp hm]
      exact Nat.lt_succ_self n

theorem pred_nextExpected_mem (h : 0<nextExpected ns) : nextExpected ns-1 ∈ ns := by
  induction ns using List.reverseRecOn with
  | nil => exact absurd h (Nat.lt_irrefl 0)
  | append_singleton ns n _ =>
    rw [nextExpected_concat]
    exact mem_append_right _ (mem_singleton_self n)

theorem Windowed.left (h : Windowed b step s (ns++ms)) : Windowed b step s ns := by
  intro pre n post hsplit
  exact h pre n (post++ms) (by rw [hsplit,append_assoc,cons_append])

/-- `Expects s e` says that the receiver in state `s` expects `e`. Within the window, a copy is
accepted exactly if it is not behind, and then the number after it is expected. -/
structure Exact (b : Nat) (step : σ → Nat → σ × Bool) (P : Nat → Prop) (Expects : σ → Nat → Prop) : Prop where
  accept : ∀ s e n, Expects s e → P n → n<e+b → e<n+b → ((step s n).2 ↔ e≤n)
  next : ∀ s e n, Expects s e → P n → (step s n).2 → Expects (step s n).1 (n+1)
  stay : ∀ s e n, Expects s e → P n → (step s n).2=false → Expects (step s n).1 e
variable {P : Nat → Prop} {Expects : σ → Nat → Prop}
variable (h : Exact b step P Expects) (hs : Expects s 0) (hP : ∀ n ∈ ns, P n) (hw : Windowed b step s ns)
include h hs hP hw
theorem Exact.run : Expects (run step s ns) (nextExpected (accepted step s ns)) ∧
      (accepted step s ns).Pairwise (· < ·) := by
  induction ns using List.reverseRecOn with
  | nil => exact ⟨hs,List.Pairwise.nil⟩
  | append_singleton ns n ih =>
    obtain ⟨hexp,hpair⟩ := ih (fun m hm => hP m (mem_append_left _ hm)) hw.left
    have hPn : P n := hP n (mem_append_right _ (mem_singleton_self n))
    obtain ⟨hahead,hbehind⟩ := hw ns n [] rfl
    have haccept := h.accept _ _ n hexp hPn hahead hbehind
    rw [accepted_concat,run_concat]
    cases hb : (step (SequenceWindow.run step s ns) n).2 with
    | true =>
      rw [if_pos rfl,nextExpected_concat]
      refine ⟨h.next _ _ n hexp hPn hb,pairwise_append.mpr ⟨hpair,pairwise_singleton ..,?_⟩⟩
      intro m hm k hk
      rw [mem_singleton.mp hk]
      exact Nat.lt_of_lt_of_le (lt_nextExpected hpair hm) (haccept.mp hb)
    | false =>
      rw [if_neg Bool.false_ne_true,append_nil]
      exact ⟨h.stay _ _ n hexp hPn hb,hpair⟩

theorem Exact.inOrder : InOrder step s ns := by
  refine ⟨(h.run hs hP hw).2,?_⟩
  rintro pre n post rfl hlater
  have hPpre : ∀ m ∈ pre, P m := fun m hm => hP m (mem_append_left _ hm)
  have hPn : P n := hP n (mem_append_right _ mem_cons_self)
  obtain ⟨hexp,hpair⟩ := h.run hs hPpre hw.left
  obtain ⟨hahead,hbehind⟩ := hw pre n post rfl
  have haccept := h.accept _ _ n hexp hPn hahead hbehind
  rw [accepted_concat]
  rcases Nat.lt_or_ge n (nextExpected (accepted step s pre)) with hlt | hge
  · -- the number before the expected one is not later than `n`, so it is `n`
    have hmem := pred_nextExpected_mem (Nat.zero_lt_of_lt hlt)
    have hle := hlater _ hmem
    have heq : nextExpected (accepted step s pre)-1=n := by omega
    rw [heq] at hmem
    exact mem_append_left _ hmem
  · rw [if_pos (haccept.mpr hge)]
    exact mem_append_right _ (mem_singleton_self n)
end P4Benchmarks.Lib.SequenceWindow
