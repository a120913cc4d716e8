import P4Benchmarks.Aes.Pipeline
/-!
# The pipeline is AES-128

A table entry is what one substituted byte adds to a mixed column, so a round of table lookups is
`SubBytes`, `ShiftRows` and `MixColumns`. The round keys are the schedule of the first one.
-/
namespace P4Benchmarks.Aes
open Lib.Aes List Function
def mixByte (j r : Fin 4) (b : Byte) : Byte := if r=j then xtime b else if r+1=j then xtime b^^^b else b
def mixWord (j : Fin 4) (b : Byte) : BitVec 32 := wordOf fun r => mixByte j r b

private theorem row_cases (r : Fin 4) : r=0 ∨ r=1 ∨ r=2 ∨ r=3 := by
  revert r
  decide

theorem mixColumns_eq_mixByte (s : State) (r c : Fin 4) : mixColumns s r c =
    mixByte 0 r (s 0 c)^^^mixByte 1 r (s 1 c)^^^mixByte 2 r (s 2 c)^^^mixByte 3 r (s 3 c) := by
  rw [mixColumns,mul_two_left,mul_three_left]
  obtain rfl | rfl | rfl | rfl := row_cases r <;> simp [mixByte,Fin.isValue,Fin.reduceAdd,Fin.reduceEq]
  all_goals ac_rfl

def fullTable {n : Nat} (f : Byte → BitVec n) : List (BitVec n) := (List.range 256).map fun i => f (.ofNat 8 i)

theorem genLutSbox_eq : genLutSbox=fullTable sbox := by
  have heval : genLutSbox.map BitVec.toNat=(List.range 256).map sboxNat := by decide +kernel
  have hspec : (fullTable sbox).map BitVec.toNat=(List.range 256).map sboxNat := by
    rw [fullTable,map_map]
    refine map_congr_left fun i hi => ?_
    rw [comp_apply,toNat_sbox,BitVec.toNat_ofNat,Nat.mod_eq_of_lt (mem_range.mp hi)]
  exact map_inj_right (fun _ _ => BitVec.eq_of_toNat_eq) |>.mp (heval.trans hspec.symm)

private theorem map_genLutSbox {n : Nat} (f : Byte → BitVec n) : genLutSbox.map f=fullTable fun b => f (sbox b) := by
  rw [genLutSbox_eq,fullTable,map_map]
  rfl

theorem genLut0_eq : genLut0=fullTable fun b => mixWord 0 (sbox b) := by
  rw [← map_genLutSbox]
  decide +kernel

theorem genLut1_eq : genLut1=fullTable fun b => mixWord 1 (sbox b) := by
  rw [← map_genLutSbox]
  decide +kernel

theorem genLut2_eq : genLut2=fullTable fun b => mixWord 2 (sbox b) := by
  rw [← map_genLutSbox]
  decide +kernel

theorem genLut3_eq : genLut3=fullTable fun b => mixWord 3 (sbox b) := by
  rw [← map_genLutSbox]
  decide +kernel
namespace AesMeta
variable (m : AesMeta)
@[simp] theorem setT_r (T : Fin 4) (w : BitVec 32) : (m.setT T w).r=m.r := rfl
@[simp] theorem setT_t (T : Fin 4) (w : BitVec 32) : (m.setT T w).t=update m.t T w := rfl
variable {n : Nat}
theorem tableLut_fullTable (reg slice : Fin 4) (f : Byte → BitVec n) (write : AesMeta → BitVec n → AesMeta)
    (m : AesMeta) : tableLut reg slice (fullTable f) write m=write m (f (byteOf (m.r reg) slice)) := by
  have hlt := (byteOf (m.r reg) slice).isLt
  unfold tableLut fullTable
  rw [List.getElem?_map,List.getElem?_range hlt]
  simp
variable (T r₀ r₁ r₂ r₃ : Fin 4) (m : AesMeta)
private theorem mergeColumn : tableLut r₃ 3 genLut3 (mergeTo T) (tableLut r₂ 2 genLut2 (mergeTo T)
      (tableLut r₁ 1 genLut1 (mergeTo T) (tableLut r₀ 0 genLut0 (mergeTo T) m))) =
    m.setT T (m.t T^^^mixWord 0 (sbox (byteOf (m.r r₀) 0)) ^^^
      mixWord 1 (sbox (byteOf (m.r r₁) 1))^^^mixWord 2 (sbox (byteOf (m.r r₂) 2)) ^^^
      mixWord 3 (sbox (byteOf (m.r r₃) 3))) := by
  rw [genLut0_eq,genLut1_eq,genLut2_eq,genLut3_eq]
  simp only [tableLut_fullTable,mergeTo,setT_r,setT_t,update_self]
  simp [setT]

theorem applyAllTableLut_t (c : Fin 4) : (applyAllTableLut m).t c =
    m.t c^^^mixWord 0 (sbox (byteOf (m.r c) 0))^^^mixWord 1 (sbox (byteOf (m.r (c+1)) 1)) ^^^
      mixWord 2 (sbox (byteOf (m.r (c+2)) 2))^^^mixWord 3 (sbox (byteOf (m.r (c+3)) 3)) := by
  simp only [applyAllTableLut,foldl_cons,foldl_nil,lut00,lut01,lut02,lut03,lut10,
    lut11,lut12,lut13,lut20,lut21,lut22,lut23,lut30,lut31,lut32,lut33,mergeColumn,
    setT_r,setT_t]
  match c with
  | 0 | 1 | 2 | 3 => simp

private def sliceWord (slice : Fin 4) (b : Byte) : BitVec 32 := wordOf fun r => if r=slice then b else 0

private theorem byteOf_sliceWord (slice r : Fin 4) (b : Byte) :
    byteOf (sliceWord slice b) r = if r=slice then b else 0 := byteOf_wordOf _ _

private theorem mergeToPartial_eq (T slice : Fin 4) (m : AesMeta) (b : Byte) :
    mergeToPartial T slice m b=m.setT T (m.t T^^^sliceWord slice b) := by
  unfold mergeToPartial
  congr 1
  rw [← wordOf_byteOf (m.t T^^^sliceWord slice b)]
  congr 1
  funext r
  rw [byteOf_xor,byteOf_sliceWord]
  by_cases hr : r=slice
  · rw [hr,update_self,if_pos rfl]
  · rw [update_of_ne hr,if_neg hr]
    exact (BitVec.xor_zero).symm

private theorem mergeSlices :
    tableLut r₃ 3 genLutSbox (mergeToPartial T 3) (tableLut r₂ 2 genLutSbox (mergeToPartial T 2)
      (tableLut r₁ 1 genLutSbox (mergeToPartial T 1) (tableLut r₀ 0 genLutSbox (mergeToPartial T 0) m))) =
    m.setT T (m.t T^^^sliceWord 0 (sbox (byteOf (m.r r₀) 0)) ^^^
      sliceWord 1 (sbox (byteOf (m.r r₁) 1))^^^sliceWord 2 (sbox (byteOf (m.r r₂) 2)) ^^^
      sliceWord 3 (sbox (byteOf (m.r r₃) 3))) := by
  rw [genLutSbox_eq]
  simp only [tableLut_fullTable,mergeToPartial_eq,setT_r,setT_t,update_self]
  simp [setT]

theorem applyAllTableLutLast_t (c : Fin 4) : (applyAllTableLutLast m).t c =
    m.t c^^^sliceWord 0 (sbox (byteOf (m.r c) 0)) ^^^
      sliceWord 1 (sbox (byteOf (m.r (c+1)) 1))^^^sliceWord 2 (sbox (byteOf (m.r (c+2)) 2)) ^^^
      sliceWord 3 (sbox (byteOf (m.r (c+3)) 3)) := by
  have hcolumns : applyAllTableLutLast m =
      lutLast33 (lutLast32 (lutLast31 (lutLast30 (lutLast23 (lutLast22 (lutLast21 (lutLast20
        (lutLast13 (lutLast12 (lutLast11 (lutLast10 (lutLast03 (lutLast02 (lutLast01 (lutLast00 m))))))))))))))) := rfl
  have hcolumn0 (m : AesMeta) := mergeSlices 0 0 1 2 3 m
  have hcolumn1 (m : AesMeta) := mergeSlices 1 1 2 3 0 m
  have hcolumn2 (m : AesMeta) := mergeSlices 2 2 3 0 1 m
  have hcolumn3 (m : AesMeta) := mergeSlices 3 3 0 1 2 m
  rw [hcolumns,lutLast33,lutLast32,lutLast31,lutLast30,hcolumn3,lutLast23,lutLast22,
    lutLast21,lutLast20,hcolumn2,lutLast13,lutLast12,lutLast11,lutLast10,hcolumn1,
    lutLast03,lutLast02,lutLast01,lutLast00,hcolumn0]
  match c with
  | 0 | 1 | 2 | 3 => simp

private theorem byteOf_zero (r : Fin 4) : byteOf 0 r=0 := by simp [byteOf]

theorem stateOf_maskKey (key : BitVec 128) (m : AesMeta) :
    stateOf (maskKey key m).r=addRoundKey (stateOf m.t) (stateOf (columnOf key)) := by
  funext r c
  exact byteOf_xor _ _ _

theorem stateOf_applyAllTableLut :
    stateOf (applyAllTableLut m.newRound).t=mixColumns (shiftRows (subBytes (stateOf m.r))) := by
  funext r c
  rw [stateOf,applyAllTableLut_t,mixColumns_eq_mixByte]
  simp only [byteOf_xor,mixWord,byteOf_wordOf,newRound,byteOf_zero]
  unfold shiftRows subBytes stateOf
  simp

theorem stateOf_applyAllTableLutLast :
    stateOf (applyAllTableLutLast m.newRound).t=shiftRows (subBytes (stateOf m.r)) := by
  funext r c
  rw [stateOf,applyAllTableLutLast_t]
  simp only [byteOf_xor,byteOf_sliceWord,newRound,byteOf_zero]
  unfold shiftRows subBytes stateOf
  obtain rfl | rfl | rfl | rfl := row_cases r <;> simp

theorem sbox_eq_getD : sbox = fun b => genLutSbox.getD b.toNat 0 := by
  funext b
  rw [genLutSbox_eq,fullTable,getD_eq_getElem?_getD,List.getElem?_map,List.getElem?_range b.isLt]
  simp

theorem unpack_maskKeys_succ (hn : n<10) :
    unpack (maskKeys.getD (n+1) 0)=nextKey (rcon n) (unpack (maskKeys.getD n 0)) := by
  funext r c
  unfold nextKey nextColumn
  rw [sbox_eq_getD]
  revert r c
  match n, hn with
  | 0, _ | 1, _ | 2, _ | 3, _ | 4, _ | 5, _ | 6, _ | 7, _ | 8, _ | 9, _ => decide +kernel

def key128 : BitVec 128 := 0x01010101020202020303030304040404

theorem unpack_maskKeys (hn : n≤10) : unpack (maskKeys.getD n 0)=unpack (roundKey key128 n) := by
  induction n with
  | zero => rfl
  | succ n ih => rw [roundKey,unpack_pack,← ih (by omega),unpack_maskKeys_succ (by omega)]

theorem stateOf_round (hn : n<10) (m : AesMeta) :
    stateOf (round n m).r=addRoundKey (mixColumns (shiftRows (subBytes (stateOf m.r))))
      (unpack (roundKey key128 n)) := by
  rw [← unpack_maskKeys (by omega),← stateOf_applyAllTableLut]
  exact stateOf_maskKey _ _

theorem stateOf_lastRound : stateOf (lastRound m).r=addRoundKey (shiftRows (subBytes (stateOf m.r)))
      (unpack (roundKey key128 10)) := by
  rw [← unpack_maskKeys le_rfl,← stateOf_applyAllTableLutLast]
  exact stateOf_maskKey _ _

theorem stateOf_rounds (value : BitVec 128) {n : Nat} (hn : n<10) :
    stateOf ((List.range n).foldl (fun m i => round (i+1) m)
      (applyMaskKey 0 (m.readCleartext value))).r=unpack (rounds key128 value n) := by
  induction n with
  | zero =>
    rw [rounds,unpack_pack]
    exact stateOf_maskKey _ _
  | succ n ih =>
    rw [range_succ,foldl_append,foldl_cons,foldl_nil,stateOf_round hn,ih (by omega),rounds,unpack_pack]

theorem writeCiphertext_encrypt (value : BitVec 128) : (m.encrypt value).writeCiphertext=aes128 key128 value := by
  have hrounds : [1,2,3,4,5,6,7,8,9]=(List.range 9).map (· + 1) := rfl
  rw [writeCiphertext,← pack_stateOf,encrypt,stateOf_lastRound,hrounds,foldl_map,
    stateOf_rounds m value (by decide),aes128]
end AesMeta

/-- The value written to the header is the AES-128 encryption of the block that was read. -/
theorem ingress_aes128 (hdr : Headers) (aesMeta : AesMeta) (ingressPort : BitVec 9) (block : BitVec 128) :
    ingress { hdr with aesInout := some ⟨block,0xFF⟩ } aesMeta ingressPort = some (reflect { hdr with
        aesInout := some ⟨aes128 0x01010101020202020303030304040404 block,0xFF⟩ },ingressPort) := by
  have hcipher := aesMeta.writeCiphertext_encrypt block
  rw [AesMeta.key128] at hcipher
  unfold ingress
  rw [← hcipher]
  rfl
end P4Benchmarks.Aes
