import P4Benchmarks.Macsec.Pipeline
/-!
# P4-MACsec: initialization vectors

The zeros that `get_char_vector` leaves after the identifier of the secure channel take the place of
the packet number in `IV`.
-/
namespace P4Benchmarks.Macsec
open Lib List Parameters

def protectCalls (E : Environment) (junk : Unspecified) (T : Tables) :
    (outgoingPacketNumbers : Register 64 32) → List (BitVec 9 × State) → List Parameters
  | _, [] => []
  | pns, (egressPort,s)::frames =>
    let r := s.egress E junk T pns egressPort
    r.protectCall.toList++protectCalls E junk T r.outgoingPacketNumbers frames
variable (E : Environment)
def pnWindow (sci : BitVec 64) (pn : BitVec 32) : List Byte :=
  (getCharVector (E.getString pn) pnSize).take (4-(E.getString sci).length)

theorem pnWindow_eq_nil {E : Environment} {sci : BitVec 64} (h : 4≤(E.getString sci).length)
    (pn : BitVec 32) : pnWindow E sci pn=[] := by
  rw [pnWindow,Nat.sub_eq_zero_of_le h,take_zero]

theorem Parameters.nonce_eq (a : Parameters) : a.nonce E =
      (getCharVector (E.getString a.sci) sciSize).take 12++pnWindow E a.sci a.pn := by
  have hlength : (getCharVector (E.getString a.sci) sciSize).length =
      min sciSize (E.getString a.sci).length+sciSize := by
    simp [getCharVector]
  have hrest : 12-(min sciSize (E.getString a.sci).length+sciSize) = 4-(E.getString a.sci).length := by
    rw [sciSize]
    omega
  rw [nonce,ivVector,take_append,hlength,hrest,pnWindow]

/-- Two frames of one secure channel have the same initialization vector exactly if their packet
numbers agree in the bytes that come into it. -/
theorem Parameters.nonce_eq_iff {E : Environment} {a b : Parameters} (h : a.sci=b.sci) :
    a.nonce E=b.nonce E ↔ pnWindow E a.sci a.pn=pnWindow E a.sci b.pn := by
  rw [nonce_eq,nonce_eq,← h,append_right_inj]

def channelCalls (sak : BitVec 128) (systemId : BitVec 48) (egressPort : BitVec 9)
    (calls : List Parameters) : List Parameters :=
  calls.filter fun a => a.sak=sak ∧ a.sci=systemId++egressPort.setWidth 16

theorem sci_of_mem_channelCalls {sak : BitVec 128} {systemId : BitVec 48} {egressPort : BitVec 9}
    {calls : List Parameters} {a : Parameters} (h : a ∈ channelCalls sak systemId egressPort calls) :
    a.sci=systemId++egressPort.setWidth 16 := by
  simp only [channelCalls,mem_filter,decide_eq_true_eq] at h
  exact h.2.2

section Run
variable (junk : Unspecified) (T : Tables) (sak : BitVec 128) (systemId : BitVec 48) (egressPort : BitVec 9)

theorem channelCalls_nonces (calls : List Parameters) :
    ((channelCalls sak systemId egressPort calls).map (·.nonce E)).Pairwise (· ≠ ·) ↔
      ((channelCalls sak systemId egressPort calls).map fun a =>
        pnWindow E (systemId++egressPort.setWidth 16) a.pn).Pairwise (· ≠ ·) := by
  rw [pairwise_map,pairwise_map]
  refine List.Pairwise.iff_of_mem ?_
  intro a b ha hb
  have hsci := (sci_of_mem_channelCalls ha).trans (sci_of_mem_channelCalls hb).symm
  rw [Ne,Ne,nonce_eq_iff hsci,sci_of_mem_channelCalls ha]

/-- Over any sequence of frames, the initialization vectors of one key on one port are pairwise
distinct exactly if the packet numbers before these frames differ in the few bytes that come into the
vectors. -/
theorem nonces_distinct_iff (outgoingPacketNumbers : Register 64 32) (frames : List (BitVec 9 × State)) :
    ((channelCalls sak systemId egressPort
        (protectCalls E junk T outgoingPacketNumbers frames)).map (·.nonce E)).Pairwise (· ≠ ·) ↔
      ((channelCalls sak systemId egressPort (protectCalls E junk T outgoingPacketNumbers frames)).map fun a =>
        pnWindow E (systemId++egressPort.setWidth 16) a.pn).Pairwise (· ≠ ·) :=
  channelCalls_nonces ..

/-- With at least four bytes in the string of the identifier no byte of the packet number is left, so
the second frame of a run already repeats the initialization vector. -/
theorem nonces_distinct_iff_length_le_one (hsci : 4 ≤ (E.getString (systemId++egressPort.setWidth 16)).length)
    (outgoingPacketNumbers : Register 64 32) (frames : List (BitVec 9 × State)) :
    ((channelCalls sak systemId egressPort
        (protectCalls E junk T outgoingPacketNumbers frames)).map (·.nonce E)).Pairwise (· ≠ ·) ↔
      (channelCalls sak systemId egressPort (protectCalls E junk T outgoingPacketNumbers frames)).length ≤ 1 := by
  rw [channelCalls_nonces]
  simp only [pnWindow_eq_nil hsci,map_const',pairwise_replicate,ne_eq,not_true_eq_false,or_false]

end Run

private def fixedWidth : Environment := identityCipher true
private def outgoingFrame : BitVec 9 × State := (1,⟨⟨none,some ⟨2,1,0x86dd⟩,none,none,[1,2,3]⟩,.initial,3,1,0⟩)

private def protectTables : Tables where
  macSrc := fun _ => none
  macDst := fun _ => none
  validateTbl := fun _ => none
  protectTbl := fun port => if port=1 then some (.protectPacket 5 0x112233445566 0) else none

/-- Two frames with the packet numbers 7 and 8 have the same initialization vector. -/
theorem nonce_repeated : ¬((channelCalls 5 0x112233445566 1 (protectCalls fixedWidth (fun _ => 0) protectTables
      (.filled 7) [outgoingFrame,outgoingFrame])).map (·.nonce fixedWidth)).Pairwise (· ≠ ·) := by
  decide
end P4Benchmarks.Macsec
