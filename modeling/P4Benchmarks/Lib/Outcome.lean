/-!
# Runs that may throw and may not end

A computation with a bounded depth of recursion returns a value, throws, or needs more depth.  A
recursive function of the source is modelled at every depth, and it terminates if some depth is
enough.
-/
namespace P4Benchmarks.Lib
open Option
universe u

abbrev Outcome (ε : Type u) (α : Type u) : Type u := ExceptT ε Option α
namespace Outcome
variable {ε α β : Type u}
def tooDeep : Outcome ε α := ExceptT.mk none
variable (x : Outcome ε α)
def Returns (a : α) : Prop := x.run=some (.ok a)
def Throws (e : ε) : Prop := x.run=some (.error e)
def Terminates : Prop := x.run≠none
theorem not_terminates_tooDeep : ¬ (tooDeep : Outcome ε α).Terminates := fun h => h rfl
variable {a : α}
theorem not_returns_tooDeep : ¬ (tooDeep : Outcome ε α).Returns a := by
  intro h
  cases h

@[simp] theorem returns_pure {a b : α} : (pure a : Outcome ε α).Returns b ↔ a=b := by
  constructor
  · intro h
    exact Except.ok.inj (some.inj h)
  · rintro rfl
    rfl

@[simp] theorem not_throws_pure {e : ε} : ¬ (pure a : Outcome ε α).Throws e := by
  intro h
  cases some.inj h

@[simp] theorem terminates_pure (a : α) : (pure a : Outcome ε α).Terminates := by
  intro h
  cases h

@[simp] theorem not_returns_throw {e : ε} : ¬ (throw e : Outcome ε α).Returns a := by
  intro h
  cases some.inj h

@[simp] theorem throws_throw {e e' : ε} : (throw e : Outcome ε α).Throws e' ↔ e=e' := by
  constructor
  · intro h
    exact Except.error.inj (some.inj h)
  · rintro rfl
    rfl

@[simp] theorem terminates_throw (e : ε) : (throw e : Outcome ε α).Terminates := by
  intro h
  cases h

theorem bind_cases (f : α → Outcome ε β) : (¬ x.Terminates ∧ (x >>= f)=tooDeep) ∨
      (∃ e, x.Throws e ∧ (x >>= f)=throw e) ∨ ∃ a, x.Returns a ∧ (x >>= f)=f a := by
  cases hx : x.run with
  | none =>
    obtain rfl : x=tooDeep := hx
    exact .inl ⟨not_terminates_tooDeep,rfl⟩
  | some r =>
    cases r with
    | error e =>
      obtain rfl : x=throw e := hx
      exact .inr (.inl ⟨e,rfl,rfl⟩)
    | ok a =>
      obtain rfl : x=pure a := hx
      exact .inr (.inr ⟨a,rfl,rfl⟩)
variable {x : Outcome ε α}
theorem Returns.terminates (h : x.Returns a) : x.Terminates := by
  intro hnone
  cases h.symm.trans hnone
variable {f : α → Outcome ε β}
theorem returns_of_bind {b : β} (h : (x >>= f).Returns b) : ∃ a, x.Returns a ∧ (f a).Returns b := by
  obtain ⟨-,heq⟩ | ⟨e,-,heq⟩ | ⟨a,ha,heq⟩ := bind_cases x f
  · rw [heq] at h
    exact absurd h not_returns_tooDeep
  · rw [heq] at h
    exact absurd h not_returns_throw
  · rw [heq] at h
    exact ⟨a,ha,h⟩

theorem Returns.bind {b : β} (hx : x.Returns a) (hf : (f a).Returns b) : (x >>= f).Returns b := by
  obtain rfl : x=pure a := hx
  exact hf

theorem Throws.bind {e : ε} (hx : x.Throws e) (f : α → Outcome ε β) : (x >>= f).Throws e := by
  obtain rfl : x=throw e := hx
  rfl

theorem terminates_bind (hx : x.Terminates) (hf : ∀ a, x.Returns a → (f a).Terminates) : (x >>= f).Terminates := by
  obtain ⟨hnot,-⟩ | ⟨e,-,heq⟩ | ⟨a,ha,heq⟩ := bind_cases x f
  · exact absurd hx hnot
  · rw [heq]
    exact terminates_throw e
  · rw [heq]
    exact hf a ha

theorem not_terminates_bind (hx : ¬ x.Terminates) (f : α → Outcome ε β) : ¬ (x >>= f).Terminates := by
  obtain ⟨-,heq⟩ | ⟨e,he,-⟩ | ⟨a,ha,-⟩ := bind_cases x f
  · rw [heq]
    exact not_terminates_tooDeep
  · exact absurd (fun h => by cases he.symm.trans h) hx
  · exact absurd ha.terminates hx

theorem throws_of_bind {e : ε} (h : (x >>= f).Throws e) : x.Throws e ∨ ∃ a, x.Returns a ∧ (f a).Throws e := by
  obtain ⟨-,heq⟩ | ⟨e',he',heq⟩ | ⟨a,ha,heq⟩ := bind_cases x f
  · rw [heq] at h
    cases h
  · rw [heq,throws_throw] at h
    exact .inl (h ▸ he')
  · rw [heq] at h
    exact .inr ⟨a,ha,h⟩

theorem Terminates.cases (h : x.Terminates) : (∃ a, x.Returns a) ∨ ∃ e, x.Throws e := by
  cases hx : x.run with
  | none => exact absurd hx h
  | some r =>
    cases r with
    | error e => exact .inr ⟨e,hx⟩
    | ok a => exact .inl ⟨a,hx⟩
end Outcome
end P4Benchmarks.Lib
