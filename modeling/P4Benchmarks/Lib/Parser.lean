import Mathlib.Data.List.Basic
/-!
# Parsers over a source of symbols

A parser reads from a source `S`; `view` is the list of symbols that are still to come.  `Parses`
and `Fails` say what a parser makes of a given beginning of the input, whatever follows it.
-/
namespace P4Benchmarks.Lib

abbrev Parser (S α : Type) := StateT S Option α

section
variable {S σ α β : Type} {view : S → List σ}
/-- On input that starts with `xs` the parser returns `a` and has consumed `xs`. -/
def Parses (view : S → List σ) (p : Parser S α) (xs : List σ) (a : α) : Prop :=
  ∀ ⦃s rest⦄, view s=xs++rest → ∃ s', p s=some (a,s') ∧ view s'=rest

def Fails (view : S → List σ) (p : Parser S α) (xs : List σ) : Prop := ∀ ⦃s rest⦄, view s=xs++rest → p s=none

/-- The parser returns what `o` has, and fails if that is nothing. -/
def Yields (view : S → List σ) (p : Parser S α) (xs : List σ) (o : Option α) : Prop :=
  match o with
  | some a => Parses view p xs a
  | none => Fails view p xs

theorem Parses.pure (a : α) : Parses view (pure a) [] a := fun s _ h => ⟨s,rfl,h⟩
variable {a : α} {p : Parser S α}
variable {q : α → Parser S β} {xs ys : List σ}
theorem Parses.bind_yields {o : Option β} (hp : Parses view p xs a) (hq : Yields view (q a) ys o) :
    Yields view (p >>= q) (xs++ys) o := by
  have hstep {s : S} {rest : List σ} (h : view s=xs++ys++rest) : ∃ s', (p >>= q) s=q a s' ∧ view s'=ys++rest := by
    rw [List.append_assoc] at h
    obtain ⟨s',hs',hrest⟩ := hp h
    refine ⟨s',?_,hrest⟩
    show (p s >>= fun r => q r.1 r.2)=_
    rw [hs']
    rfl
  cases o <;>
  · intro s rest h
    obtain ⟨s',hs',hrest⟩ := hstep h
    rw [hs']
    exact hq hrest

theorem Parses.bind {b : β} (hp : Parses view p xs a) (hq : Parses view (q a) ys b) :
    Parses view (p >>= q) (xs++ys) b := hp.bind_yields (o := some b) hq

theorem Fails.failure (xs : List σ) : Fails view (failure : Parser S α) xs := fun _ _ _ => rfl

theorem Fails.bind (hp : Fails view p xs) (q : α → Parser S β) (ys : List σ) : Fails view (p >>= q) (xs++ys) := by
  intro s rest h
  rw [List.append_assoc] at h
  show (p s >>= fun r => q r.1 r.2)=_
  rw [hp h]
  rfl

theorem Parses.map (hp : Parses view p xs a) (f : α → β) : Parses view (f <$> p) xs (f a) := by
  intro s rest h
  obtain ⟨s',hs',hrest⟩ := hp h
  refine ⟨s',?_,hrest⟩
  show (p s >>= fun r => _)=_
  rw [hs']
  rfl

theorem Parses.bind_pure (hp : Parses view p xs a) (f : α → β) :
    Parses view (p >>= fun x => Pure.pure (f x)) xs (f a) := by
  rw [bind_pure_comp]
  exact hp.map f
variable {o : Option α}
theorem Yields.map (hp : Yields view p xs o) (f : α → β) : Yields view (f <$> p) xs (o.map f) := by
  cases o with
  | some a => exact Parses.map hp f
  | none =>
    intro s rest h
    show (p s >>= fun r => _)=_
    rw [hp h]
    rfl

theorem Yields.bind_pure (hp : Yields view p xs o) (f : α → β) :
    Yields view (p >>= fun x => Pure.pure (f x)) xs (o.map f) := by
  rw [bind_pure_comp]
  exact hp.map f

theorem Yields.result {rest : List σ} (hp : Yields view p xs o) {s : S} (hs : view s=xs++rest) :
    (p s).map Prod.fst=o := by
  cases o with
  | some a =>
    obtain ⟨s',hs',-⟩ := hp hs
    rw [hs']
    rfl
  | none =>
    rw [hp hs]
    rfl
end
end P4Benchmarks.Lib
