import Mathlib.Algebra.GroupWithZero.Nat
import Mathlib.Data.Fin.Basic
/-!
# AES-128

The block cipher, from the arithmetic of the field with 256 elements up to the encryption of a
block: a state is a matrix of four rows and four columns of bytes, filled column by column.
-/
namespace P4Benchmarks.Lib.Aes
open BitVec Nat
abbrev Byte := BitVec 8

scoped instance neZero_four : NeZero 4 := ⟨by decide⟩
variable (b : Byte)
def xtime : Byte := if b.msb then (b<<<1)^^^0x1b else b<<<1

/-- The sum of `b * xⁱ` over the lowest `n` bits of `a` that are set. -/
def mulBits : Nat → Byte → Byte → Byte
  | 0, _, _ => 0
  | n+1, a, b => (if a.getLsbD 0 then b else 0)^^^mulBits n (a>>>1) (xtime b)

def mul (a b : Byte) : Byte := mulBits 8 a b

example : mul 0x57 0x83=0xc1 := by decide

def square : Byte := mul b b

def powTwoSub : Nat → Byte → Byte
  | 0, _ => 1
  | n+1, b => square (mul b (powTwoSub n b))

def inverse : Byte := powTwoSub 7 b
def affine : Byte := b^^^b.rotateLeft 1^^^b.rotateLeft 2^^^b.rotateLeft 3^^^b.rotateLeft 4^^^0x63
def sbox : Byte := affine (inverse b)

example : sbox 0x53=0xed := by decide
abbrev State := Fin 4 → Fin 4 → Byte
variable (s : State)
def subBytes : State := fun r c => sbox (s r c)
def shiftRows : State := fun r c => s r (c+r)

def mixColumns : State := fun r c =>
  mul 2 (s r c)^^^mul 3 (s (r+1) c)^^^s (r+2) c^^^s (r+3) c

def addRoundKey (s k : State) : State := fun r c => s r c^^^k r c

def rcon : Nat → Byte
  | 0 => 1
  | n+1 => xtime (rcon n)

def nextColumn (rc : Byte) (k : State) (r : Fin 4) : Byte :=
  k r 0^^^sbox (k (r+1) 3)^^^if r=0 then rc else 0

def nextKey (rc : Byte) (k : State) : State := fun r c =>
  match c with
  | 0 => nextColumn rc k r
  | 1 => nextColumn rc k r^^^k r 1
  | 2 => nextColumn rc k r^^^k r 1^^^k r 2
  | 3 => nextColumn rc k r^^^k r 1^^^k r 2^^^k r 3

def byteOf (w : BitVec 32) (r : Fin 4) : Byte := w.extractLsb' (24-8*r.val) 8
def wordOf (b : Fin 4 → Byte) : BitVec 32 := b 0++b 1++b 2++b 3
def columnOf (block : BitVec 128) (c : Fin 4) : BitVec 32 := block.extractLsb' (96-32*c.val) 32
variable (w : Fin 4 → BitVec 32)
def blockOf : BitVec 128 := w 0++w 1++w 2++w 3
def stateOf : State := fun r c => byteOf (w c) r
def unpack (block : BitVec 128) : State := stateOf (columnOf block)
def pack : BitVec 128 := blockOf fun c => wordOf fun r => s r c

def roundKey (key : BitVec 128) : Nat → BitVec 128
  | 0 => key
  | n+1 => pack (nextKey (rcon n) (unpack (roundKey key n)))

def rounds (key block : BitVec 128) : Nat → BitVec 128
  | 0 => pack (addRoundKey (unpack block) (unpack (roundKey key 0)))
  | n+1 => pack (addRoundKey (mixColumns (shiftRows (subBytes (unpack (rounds key block n)))))
    (unpack (roundKey key (n+1))))

def aes128 (key block : BitVec 128) : BitVec 128 :=
  pack (addRoundKey (shiftRows (subBytes (unpack (rounds key block 9)))) (unpack (roundKey key 10)))

theorem byteOf_xor (v w : BitVec 32) (r : Fin 4) : byteOf (v^^^w) r=byteOf v r^^^byteOf w r :=
  BitVec.extractLsb'_xor

theorem byteOf_wordOf (b : Fin 4 → Byte) (r : Fin 4) : byteOf (wordOf b) r=b r := by
  apply eq_of_getLsbD_eq
  intro i hi
  unfold byteOf wordOf
  simp only [getLsbD_extractLsb',getLsbD_append,hi,decide_true,Bool.true_and]
  match r with
  | 0 | 1 | 2 | 3 =>
    simp (disch := omega) only [if_pos,if_neg]
    exact congrArg _ (by omega)

theorem wordOf_byteOf (w : BitVec 32) : wordOf (byteOf w)=w := by
  apply eq_of_getLsbD_eq
  intro i hi
  unfold byteOf wordOf
  simp only [getLsbD_append,getLsbD_extractLsb']
  rcases (by omega : i<8 ∨ 8 ≤ i ∧ i<16 ∨ 16 ≤ i ∧ i<24 ∨ 24 ≤ i) with h | h | h | h <;>
    simp (disch := omega) only [if_pos,if_neg,decide_eq_true,Bool.true_and] <;>
    exact congrArg _ (by omega)

theorem columnOf_blockOf (c : Fin 4) : columnOf (blockOf w) c=w c := by
  apply eq_of_getLsbD_eq
  intro i hi
  unfold columnOf blockOf
  simp only [getLsbD_extractLsb',getLsbD_append,hi,decide_true,Bool.true_and]
  match c with
  | 0 | 1 | 2 | 3 =>
    simp (disch := omega) only [if_pos,if_neg]
    exact congrArg _ (by omega)

theorem unpack_pack : unpack (pack s)=s := by
  funext r c
  rw [unpack,stateOf,pack,columnOf_blockOf,byteOf_wordOf]

theorem pack_stateOf : pack (stateOf w)=blockOf w := by
  unfold pack stateOf
  simp [wordOf_byteOf]

theorem mul_two_left : mul 2 b=xtime b := by simp [mul,mulBits]
theorem mul_three_left : mul 3 b=xtime b^^^b := by simp [mul,mulBits,BitVec.xor_comm]

/-! ### Evaluation

The same arithmetic on natural numbers, for computing the substitution of given bytes. -/

def xtimeNat (b : Nat) : Nat := xor (Nat.mod (Nat.mul b 2) 256) (Nat.mul 0x1b (Nat.div b 128))

def mulBitsNat : Nat → Nat → Nat → Nat
  | 0, _, _ => 0
  | n+1, a, b => xor (Nat.mul (Nat.mod a 2) b) (mulBitsNat n (Nat.div a 2) (xtimeNat b))

def powTwoSubNat : Nat → Nat → Nat
  | 0, _ => 1
  | n+1, b => (fun c => mulBitsNat 8 c c) (mulBitsNat 8 b (powTwoSubNat n b))

def rotateNat (b k : Nat) : Nat := lor (Nat.mod (shiftLeft b k) 256) (shiftRight b (Nat.sub 8 k))

def sboxNat (b : Nat) : Nat :=
  (fun c => xor (xor (xor (xor (xor c (rotateNat c 1)) (rotateNat c 2))
    (rotateNat c 3)) (rotateNat c 4)) 0x63) (powTwoSubNat 7 b)

theorem toNat_xtime : (xtime b).toNat=xtimeNat b.toNat := by
  have hshift : (b<<<1).toNat=b.toNat*2%256 := by rw [toNat_shiftLeft,Nat.shiftLeft_eq]
  unfold xtime xtimeNat
  rw [msb_eq_decide]
  by_cases hmsb : 2^7≤b.toNat
  · have hdiv : Nat.div b.toNat 128=1 := (by omega : b.toNat/128=1)
    simp only [hmsb,decide_true,if_true,toNat_xor,hshift,hdiv]
    rfl
  · have hdiv : Nat.div b.toNat 128=0 := (by omega : b.toNat/128=0)
    simp only [hmsb,decide_false,Bool.false_eq_true,if_false,hshift,hdiv]
    exact (Nat.xor_zero _).symm

theorem toNat_mulBits (n : Nat) (a b : Byte) : (mulBits n a b).toNat=mulBitsNat n a.toNat b.toNat := by
  induction n generalizing a b with
  | zero => rfl
  | succ n ih =>
    have hbit : (if a.getLsbD 0 then b else 0).toNat=a.toNat%2*b.toNat := by
      rw [BitVec.getLsbD,testBit_zero]
      rcases mod_two_eq_zero_or_one a.toNat with h | h <;> simp [h]
    have hhalf : (a>>>1).toNat=a.toNat/2 := by rw [toNat_ushiftRight,shiftRight_eq_div_pow]
    rw [mulBits,toNat_xor,hbit,ih,hhalf,toNat_xtime]
    rfl

theorem toNat_powTwoSub (n : Nat) (b : Byte) : (powTwoSub n b).toNat=powTwoSubNat n b.toNat := by
  induction n with
  | zero => rfl
  | succ n ih => rw [powTwoSub,square,mul,mul,toNat_mulBits,toNat_mulBits,ih]; rfl

theorem toNat_sbox : (sbox b).toNat=sboxNat b.toNat := by
  simp only [sbox,affine,inverse,toNat_xor,toNat_rotateLeft,toNat_powTwoSub]
  rfl
end P4Benchmarks.Lib.Aes
