import Mathlib.Logic.Function.Basic
import Mathlib.Tactic.SplitIfs
/-!
# P4 register arrays

A `register<bit<w>>(size)` of the v1model architecture.  A read outside the array returns an
unspecified value, which the caller supplies; a write outside the array has no effect.
-/
namespace P4Benchmarks.Lib

/-- The values a target may return where the language leaves them unspecified. -/
abbrev Unspecified := (w : Nat) → BitVec w
def Register (size w : Nat) : Type := Fin size → BitVec w
namespace Register
variable {size w : Nat}
def filled (v : BitVec w) : Register size w := fun _ => v
variable (junk : Unspecified) (r : Register size w)
def read (i : Nat) : BitVec w := if h : i < size then r ⟨i,h⟩ else junk w
variable (r : Register size w)
def write (i : Nat) (v : BitVec w) : Register size w := fun j => if j.val=i then v else r j

@[simp] theorem filled_apply (v : BitVec w) (i : Fin size) : (filled v : Register size w) i=v := rfl
theorem read_filled (v : BitVec w) {i : Nat} (hi : i < size) : (filled v : Register size w).read junk i=v := by
  simp [read,hi]


@[simp] theorem read_val (i : Fin size) : r.read junk i=r i := by simp [read]
theorem write_apply (n : Nat) (v : BitVec w) (i : Fin size) : r.write n v i = if i.val=n then v else r i := rfl
variable {r : Register size w}
theorem read_write {junk : Unspecified} {i : Nat} (hi : i < size) (n : Nat)
    (v : BitVec w) : (r.write n v).read junk i = if i=n then v else r.read junk i := by
  simp [read,hi,write_apply]

theorem write_write (i : Nat) (v v' : BitVec w) : (r.write i v).write i v'=r.write i v' := by
  funext j
  simp only [write_apply]
  split_ifs <;> rfl

theorem write_eq_self_iff {i : Fin size} {v : BitVec w} : r.write i v=r ↔ r i=v := by
  constructor
  · intro h
    have hi := congrFun h i
    rw [write_apply,if_pos rfl] at hi
    exact hi.symm
  · rintro rfl
    funext j
    rw [write_apply]
    by_cases hj : j.val=i.val
    · rw [if_pos hj,Fin.ext hj]
    · rw [if_neg hj]

theorem write_read {junk : Unspecified} {i : Nat} (hi : i < size) : r.write i (r.read junk i)=r :=
  write_eq_self_iff (i := ⟨i,hi⟩).mpr (read_val junk r ⟨i,hi⟩).symm
end Register
end P4Benchmarks.Lib
