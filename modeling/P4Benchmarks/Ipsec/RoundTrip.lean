import Mathlib.Tactic.IntervalCases
import P4Benchmarks.Ipsec.Crypt
/-!
# P4-IPsec: the round trip

The two bytes of the fragment offset are packed as if they were aligned to the left, so the lower one
loses three bits.
-/
namespace P4Benchmarks.Ipsec
open Lib List
variable (flags : BitVec 3) (f₀ f₁ : Byte)
theorem flags_restored : ((flags.setWidth 8 <<< 5 ||| f₀ >>> 3 &&& 31) >>> 5 &&& 7).setWidth 3=flags := by
  ext i hi
  interval_cases i <;> simp

theorem fragOffset₀_restored : ((flags.setWidth 8 <<< 5 ||| f₀ >>> 3 &&& 31) &&& 31) <<< 3 |||
    (f₀ <<< 5 ||| f₁ >>> 3 &&& 31) >>> 5 &&& 7=f₀ := by
  ext i hi
  interval_cases i <;> simp

theorem fragOffset₁_restored : (f₀ <<< 5 ||| f₁ >>> 3 &&& (31 : Byte)) &&& (31 : Byte)=f₁ >>> 3 := by
  ext i hi
  interval_cases i <;> simp

theorem version_ihl_restored (version ihl : BitVec 4) :
    ((version.setWidth 8 <<< 4 ||| ihl.setWidth 8 &&& 15) >>> 4 &&& 15).setWidth 4=version ∧
    ((version.setWidth 8 <<< 4 ||| ihl.setWidth 8 &&& 15) &&& 15).setWidth 4=ihl := by
  revert version ihl
  decide

theorem field_restored {w : Nat} (v : BitVec w) (n : Nat) (h : 2^w≤256^n) :
    BitVec.ofNat w (ofBe (fieldBytes n v))=v := by
  rw [fieldBytes,ofBe_beBytes,Nat.mod_eq_of_lt (Nat.lt_of_lt_of_le v.isLt h),BitVec.ofNat_toNat,BitVec.setWidth_eq]

variable (ipv4 : Ipv4) (data : List Byte)
def restoredOffset : BitVec 13 :=
  fieldAt 13 [(ipv4.fragOffset >>> 8).setWidth 8,ipv4.fragOffset.setWidth 8 >>> 3] 0 2

theorem restoredOffset_eq_iff : restoredOffset ipv4=ipv4.fragOffset ↔ ipv4.fragOffset.toNat%256=0 := by
  have hlt := ipv4.fragOffset.isLt
  rw [restoredOffset,← BitVec.toNat_inj]
  simp (disch := omega) [fieldAt,ofBe,ofLe,Nat.shiftRight_eq_div_pow,Nat.mod_eq_of_lt]
  omega

theorem ofBytes_bytes : Ipv4.ofBytes (ipv4.bytes++data)={ ipv4 with fragOffset := restoredOffset ipv4 } := by
  obtain ⟨hversion,hihl⟩ := version_ihl_restored ipv4.version ipv4.ihl
  have hfrag : (Ipv4.ofBytes (ipv4.bytes++data)).fragOffset=restoredOffset ipv4 :=
    congrArg₂ (fun x y : Byte => fieldAt 13 [x,y] 0 2) (fragOffset₀_restored ..) (fragOffset₁_restored ..)
  rw [Ipv4.ofBytes,Ipv4.mk.injEq]
  exact ⟨hversion,hihl,field_restored _ 1 (by decide),field_restored _ 2 (by decide),field_restored _ 2 (by decide),
    flags_restored ..,hfrag,field_restored _ 1 (by decide),field_restored _ 1 (by decide),
    field_restored _ 2 (by decide),field_restored _ 4 (by decide),field_restored _ 4 (by decide)⟩

theorem ofBytes_bytes_iff : Ipv4.ofBytes (ipv4.bytes++data)=ipv4 ↔ ipv4.fragOffset.toNat%256=0 := by
  rw [ofBytes_bytes,← restoredOffset_eq_iff]
  exact ⟨fun heq => congrArg (·.fragOffset) heq,fun heq => by rw [heq]⟩

theorem length_bytes : ipv4.bytes.length=20 := by simp [Ipv4.bytes,fieldBytes]

theorem decryptNull_iff : decryptNull (encryptNull ipv4 data).2=some (ipv4,data) ↔ ipv4.fragOffset.toNat%256=0 := by
  have hlen := length_bytes ipv4
  have htake : (data++[0#8,4#8]).take (20+(data.length+2)-22)=data := take_left' (by omega)
  rw [encryptNull,decryptNull,if_pos (by simp; omega),append_assoc,← ofBytes_bytes_iff ipv4 (data++[0,4]),drop_left' hlen]
  simp [hlen,htake]

variable (P : Primitives) (key iv : List Byte)
theorem length_cryptMessage (src : List Byte) : (cryptMessage P key iv src).length=src.length := length_mapIdx

theorem cryptMessage_cryptMessage (src : List Byte) : cryptMessage P key iv (cryptMessage P key iv src)=src := by
  refine List.ext_getElem (by simp [cryptMessage]) fun i _ _ => ?_
  simp only [cryptMessage,getElem_mapIdx]
  rw [BitVec.xor_assoc,BitVec.xor_self,BitVec.xor_zero]
variable {iv} (hiv : iv.length=8)
include hiv in
theorem decrypted_eq {icv : List Byte} (hicv : icv.length=12) (raw : List Byte) :
    decrypted P key (iv++cryptMessage P ((padKey 20 key).take 16) (counterBlock ((padKey 20 key).drop 16) iv) raw++icv)=
      raw := by
  have hlength (c : List Byte) : (iv++c++icv).length-20=c.length := by
    simp only [length_append]
    omega
  rw [decrypted,hlength,append_assoc,take_left' hiv,drop_left' hiv,take_left,cryptMessage_cryptMessage]

theorem payloadSize_eq (plain : List Byte) {padding : Nat} (h : padding<16) :
    payloadSize (plain++List.replicate padding 0++[BitVec.ofNat 8 padding,4])=plain.length := by
  have htoInt : (BitVec.ofNat 8 padding).toInt=padding := by
    rw [BitVec.toInt_eq_toNat_cond,BitVec.toNat_ofNat,Nat.mod_eq_of_lt (by omega),if_pos (by omega)]
  have hlength : (plain++List.replicate padding 0++[BitVec.ofNat 8 padding,4]).length=plain.length+padding+2 := by
    simp [Nat.add_assoc]
  rw [payloadSize,hlength,Nat.add_sub_cancel]
  simp [getD_eq_getElem?_getD,htoInt]

variable (hhmac : ∀ key data, (P.hmac key data).length=16) (keyHmac : List Byte) (esp : Esp)
include hhmac
theorem icvMismatch_eq_false (payload : List Byte) :
    icvMismatch P keyHmac esp (payload++(P.hmac (padKey 16 keyHmac) (esp.bytes++payload)).take 12)=false := by
  have hicv : ((P.hmac (padKey 16 keyHmac) (esp.bytes++payload)).take 12).length=12 := by simp [hhmac]
  simp [icvMismatch,computedHmac,receivedIcv,hicv,hhmac]
include hiv
theorem decryptAesCtr_iff :
    decryptAesCtr P key keyHmac esp (encryptAesCtr P iv key keyHmac ipv4 esp data).2=some (ipv4,false,data) ↔
      ipv4.fragOffset.toNat%256=0 := by
  have hlen := length_bytes ipv4
  obtain ⟨padding,hpadding⟩ : ∃ padding, (if (ipv4.bytes++data).length%16≠0 then 16-(ipv4.bytes++data).length%16
      else 0)=padding := ⟨_,rfl⟩
  have hlt : padding<16 := by split_ifs at hpadding <;> omega
  rw [encryptAesCtr,decryptAesCtr]
  simp only [hpadding,Decryptable]
  rw [decrypted_eq P key hiv (by simp [hhmac]),payloadSize_eq _ hlt,icvMismatch_eq_false P hhmac,if_pos]
  · rw [Int.toNat_natCast,append_assoc,take_left,drop_left' hlen,← ofBytes_bytes_iff ipv4 data]
    simp
  · simp [hlen,hiv,length_cryptMessage]
    omega

/-- The functions restore the packet exactly if the lower byte of the fragment offset is zero; HMAC
with MD5 has 16 bytes. -/
theorem espRoundTrip_iff :
    (decryptAesCtr P key keyHmac esp (encryptAesCtr P iv key keyHmac ipv4 esp data).2=some (ipv4,false,data) ∧
      decryptNull (encryptNull ipv4 data).2=some (ipv4,data)) ↔ ipv4.fragOffset.toNat%256=0 := by
  rw [decryptAesCtr_iff ipv4 data P key hiv hhmac,decryptNull_iff,and_self_iff]
omit hiv hhmac

private def oneByte : Primitives := ⟨fun _ _ => [],fun _ _ => List.replicate 16 1⟩
private def header (fragOffset : BitVec 13) : Ipv4 := ⟨4,5,0,20,0,0,fragOffset,64,17,0,1,2⟩

theorem espRoundTrip_aligned :
    decryptAesCtr oneByte [7] [] ⟨1,2⟩ (encryptAesCtr oneByte (.replicate 8 0) [7] [] (header 0x1f00) ⟨1,2⟩ [3,5]).2=
      some (header 0x1f00,false,[3,5]) ∧ decryptNull (encryptNull (header 0x1f00) [3,5]).2=some (header 0x1f00,[3,5]) :=
  (espRoundTrip_iff (header 0x1f00) [3,5] oneByte [7] rfl (fun _ _ => rfl) [] ⟨1,2⟩).mpr rfl

/-- The fragment offset 8 comes back as 1. -/
theorem fragment_offset_lost :
    decryptNull (encryptNull (header 8) [3,5]).2=some (header 1,[3,5]) ∧ header 1≠header 8 := by
  decide
end P4Benchmarks.Ipsec
