import Mathlib.Algebra.GroupWithZero.Nat
import Mathlib.Data.Nat.Basic
/-! # Bytes of numbers -/
namespace P4Benchmarks.Lib
abbrev Byte := BitVec 8

def leBytes : Nat → Nat → List Byte
  | 0, _ => []
  | n+1, v => .ofNat 8 v::leBytes n (v/256)

def ofLe : List Byte → Nat
  | [] => 0
  | b::bs => b.toNat+256*ofLe bs
variable (n v : Nat)
def beBytes : List Byte := (leBytes n v).reverse
def ofBe (bs : List Byte) : Nat := ofLe bs.reverse

@[simp] theorem length_leBytes : (leBytes n v).length=n := by
  induction n generalizing v with
  | zero => rfl
  | succ n ih => simp [leBytes,ih]


@[simp] theorem length_beBytes : (beBytes n v).length=n := by simp [beBytes]
@[simp] theorem ofLe_leBytes : ofLe (leBytes n v)=v%256^n := by
  induction n generalizing v with
  | zero => simp [leBytes,ofLe,Nat.mod_one]
  | succ n ih =>
    have hlow : (BitVec.ofNat 8 v).toNat=v%256 := BitVec.toNat_ofNat v 8
    rw [leBytes,ofLe,ih,hlow,Nat.pow_succ',Nat.mod_mul]

@[simp] theorem ofBe_beBytes : ofBe (beBytes n v)=v%256^n := by simp [ofBe,beBytes]

def fieldBytes {w : Nat} (n : Nat) (v : BitVec w) : List Byte := beBytes n v.toNat
def fieldAt (w : Nat) (data : List Byte) (off n : Nat) : BitVec w := .ofNat w (ofBe ((data.drop off).take n))
end P4Benchmarks.Lib
