import P4Benchmarks.Macsec.Pipeline
/-!
# P4-MACsec: the round trip

`get_char_vector` fills short strings up at the end, so a small EtherType comes back in the other byte.
-/
namespace P4Benchmarks.Macsec
open Lib List
theorem beBytes_succ (n v : Nat) : beBytes (n+1) v=BitVec.ofNat 8 (v/256^n)::beBytes n v := by
  have hsucc (n v : Nat) : beBytes (n+1) v=beBytes n (v/256)++[.ofNat 8 v] := by simp [beBytes,leBytes]
  induction n generalizing v with
  | zero => simp [beBytes,leBytes]
  | succ n ih => rw [hsucc,ih,hsucc n,Nat.div_div_eq_div_mul,Nat.pow_succ',cons_append]
variable (E : Environment)
/-- AES-GCM opens what it sealed; strings are big-endian bytes without leading zeros. -/
structure Environment.Faithful : Prop where
  decrypt_encrypt : ∀ key iv aad plain,
    E.decrypt key iv aad (E.encrypt key iv aad plain).1 (E.encrypt key iv aad plain).2=(true,plain)
  getString_eq : ∀ {w : Nat} (v : BitVec w), E.getString v=(fieldBytes ((w+7)/8) v).dropWhile (·=0)

def RoundTrip (a : Parameters) (ethertype : BitVec 16) (prependIpv4Hdr : BitVec 8) (ipv4Hdr : BitVec 160)
    (data : List Byte) : Prop :=
  validate E a (protect E a ethertype prependIpv4Hdr ipv4Hdr data)=
    some (true,ethertype,(if prependIpv4Hdr=0x54 then fieldBytes 20 ipv4Hdr else [])++data)
variable {E} (hE : E.Faithful)
include hE
theorem validate_encrypt (a : Parameters) {plain : List Byte} (hlength : ethertypeSize≤plain.length) :
    validate E a ((E.encrypt (a.key E) (a.nonce E) (a.additionalData E) plain).1 ++
      (E.encrypt (a.key E) (a.nonce E) (a.additionalData E) plain).2)=
      some (true,fieldAt 16 plain 0 ethertypeSize,plain.drop ethertypeSize) := by
  have hcipher := E.length_encrypt (a.key E) (a.nonce E) (a.additionalData E) plain
  have htag := E.length_tag (a.key E) (a.nonce E) (a.additionalData E) plain
  rw [validate,if_pos (by rw [length_append]; omega),validationFunction,length_append,htag,Nat.add_sub_cancel,
    take_left,drop_left,hE.decrypt_encrypt]

theorem getString_prepend (prependIpv4Hdr : BitVec 8) : E.getString prependIpv4Hdr=[0x54] ↔ prependIpv4Hdr=0x54 := by
  rw [hE.getString_eq]
  revert prependIpv4Hdr
  decide

theorem getString_ipv4 {ipv4Hdr : BitVec 160} (hversion : ipv4Hdr.extractLsb' 156 4=4) :
    E.getString ipv4Hdr=fieldBytes 20 ipv4Hdr := by
  have hsplit := congrArg BitVec.toNat hversion
  rw [BitVec.extractLsb'_toNat,Nat.shiftRight_eq_div_pow] at hsplit
  have hhead : BitVec.ofNat 8 (ipv4Hdr.toNat/256^19)≠0 := by
    simp at hsplit
    bv_omega
  rw [hE.getString_eq]
  show (fieldBytes 20 ipv4Hdr).dropWhile _=_
  rw [fieldBytes,beBytes_succ,dropWhile_cons_of_neg (by simpa using hhead)]

theorem fieldAt_ethertype (ethertype : BitVec 16) (rest : List Byte) :
    fieldAt 16 ((getCharVector (E.getString ethertype) ethertypeSize).take ethertypeSize++rest) 0 ethertypeSize=
      ethertype ↔ ethertype=0 ∨ 0x100≤ethertype := by
  rw [hE.getString_eq]
  obtain ⟨hi,lo,hbytes,heq⟩ : ∃ hi lo : Byte, fieldBytes ((16+7)/8) ethertype=[hi,lo] ∧
      ethertype.toNat=256*hi.toNat+lo.toNat :=
    ⟨.ofNat 8 (ethertype.toNat/256),.ofNat 8 ethertype.toNat,rfl,by bv_omega⟩
  rw [hbytes]
  by_cases hhi : hi=0#8
  · by_cases hlo : lo=0#8 <;> simp [hhi,hlo,getCharVector,ethertypeSize,fieldAt,ofBe,ofLe] <;> bv_omega
  · simp [hhi,getCharVector,ethertypeSize,fieldAt,ofBe,ofLe]
    bv_omega
variable (a : Parameters) (ethertype : BitVec 16) {prependIpv4Hdr : BitVec 8} {ipv4Hdr : BitVec 160} (data : List Byte)
/-- The round trip gives everything back exactly if the EtherType is 0 or has two bytes. -/
theorem roundTrip_iff (hversion : prependIpv4Hdr=0x54 → ipv4Hdr.extractLsb' 156 4=4) :
    RoundTrip E a ethertype prependIpv4Hdr ipv4Hdr data ↔ ethertype=0 ∨ 0x100≤ethertype := by
  have hheader : (if E.getString prependIpv4Hdr=[0x54] then
      (getCharVector (E.getString ipv4Hdr) ipv4HdrSize).take ipv4HdrSize else [])=
      if prependIpv4Hdr=0x54 then fieldBytes 20 ipv4Hdr else [] := by
    simp only [getString_prepend hE]
    split_ifs with h
    · rw [getString_ipv4 hE (hversion h)]
      simp [getCharVector,fieldBytes,ipv4HdrSize,take_of_length_le]
    · rfl
  have htype : ((getCharVector (E.getString ethertype) ethertypeSize).take ethertypeSize).length=ethertypeSize := by
    simp [getCharVector]
  rw [RoundTrip,protect,hheader,validate_encrypt hE a (by simp [htype]),append_assoc,drop_left' htype]
  simp only [Option.some.injEq,Prod.mk.injEq,true_and,and_true,fieldAt_ethertype hE]
omit hE
private def stripped : Environment :=
  { identityCipher true with getString := fun {w} v => (fieldBytes ((w+7)/8) v).dropWhile (·=0) }

private theorem stripped_faithful : stripped.Faithful := ⟨fun _ _ _ _ => rfl,fun _ => rfl⟩

theorem roundTrip_ipv4 : RoundTrip stripped ⟨0,0,0,0,0,0⟩ 0x800 0x54 (.ofNat 160 (2^158)) [1] :=
  (roundTrip_iff stripped_faithful _ 0x800 [1] fun _ => by decide).mpr (.inr (by decide))

/-- The EtherType 5 comes back as `0x500`. -/
theorem ethertype_not_restored : ¬RoundTrip stripped ⟨0,0,0,0,0,0⟩ 5 0x46 0 [1] := by
  unfold RoundTrip
  decide
end P4Benchmarks.Macsec
