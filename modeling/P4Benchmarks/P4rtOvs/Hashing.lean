import P4Benchmarks.Lib.Execution
/-!
# Definitions and hash functions of the maps

What `ubpf_bf.c` and `ubpf_countmin.c` share: a map definition, the two hash functions of
`lookup3.c` and the family of hashes that the maps derive from them.
-/
namespace P4Benchmarks.P4rtOvs
abbrev Byte := BitVec 8

structure MapDef where
  (valueSize maxEntries nbHashFunctions : BitVec 32)
deriving DecidableEq

abbrev MapDef.Value (d : MapDef) : Type := Vector Byte d.valueSize.toNat

/-- `hashlittle` with initial value 0, and `hashlittle2` with both of them 0. -/
structure Lookup3 where
  hashlittle : List Byte → BitVec 32
  hashlittle2 : List Byte → BitVec 32 × BitVec 32

def Lookup3.hashes (H : Lookup3) (nbHashFunctions : BitVec 32) (value : List Byte) : BitVec 32 × BitVec 32 :=
  if nbHashFunctions=1 then (H.hashlittle value,0) else H.hashlittle2 value

def roundHash (h : BitVec 32 × BitVec 32) (i : Nat) : BitVec 32 :=
  match i with
  | 0 => h.1
  | 1 => h.2
  | i => h.1+.ofNat 32 i*h.2

def Lookup3.const (h1 h2 : BitVec 32) : Lookup3 := ⟨fun _ => h1,fun _ => (h1,h2)⟩
end P4Benchmarks.P4rtOvs
