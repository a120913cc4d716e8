import P4Benchmarks.Lib.SequenceWindow
import P4Benchmarks.Protect.Switches
/-!
# Protected packets are delivered once and in order

The two paths, their losses and their interleaving are one list of arrivals, which names each copy
by its place in the stream.
-/
namespace P4Benchmarks.Protect
open Lib Lib.SequenceWindow BitVec Register List
variable {w : Nat}
def copies (receive : Register protectionStorage w → Packet w →
    Register protectionStorage w × Packet w × Bool) (wire : List (Packet w))
    (seqs : Register protectionStorage w) (n : Nat) : Register protectionStorage w × Bool :=
  let r := receive seqs (wire.getD n default)
  (r.1,r.2.2)

/-- Whatever copies of the stream arrive, in whatever order: as long as each is less than `b`
packets ahead of or behind the next expected one, no packet is accepted twice, the accepted ones are
in sending order, and a packet is accepted if a copy of it arrives before a later packet has been
accepted. -/
def DeliversExactlyOnce (b : Nat) (receive : Register protectionStorage w → Packet w →
    Register protectionStorage w × Packet w × Bool) (seqs : Register protectionStorage w)
    (wire : List (Packet w)) : Prop :=
  ∀ arrivals : List Nat, (∀ n ∈ arrivals, n<wire.length) →
    Windowed b (copies receive wire) seqs arrivals → InOrder (copies receive wire) seqs arrivals

def sendAll (send : Register protectionStorage w → Packet w → Register protectionStorage w × Packet w × Outcome) :
    Register protectionStorage w → List (Packet w) → List (Packet w)
  | _, [] => []
  | seqs, p::ps => (send seqs p).2.1::sendAll send (send seqs p).1 ps

structure Numbered (id : BitVec 16) (n : Nat) (p : Packet w) : Prop where
  noReset : ¬(p.resetValid ∧ p.reset.deviceType=1)
  connId : p.protection.connId=id
  seq : p.protection.seq=.ofNat w n

theorem not_reset {p : Packet w} (h : p.resetValid=false) (t : BitVec 32) : ¬(p.resetValid ∧ p.reset.deviceType=t) := by
  simp [h]

structure Numbers (junk : Unspecified) (i : Nat) (id : BitVec 16) (send : Register protectionStorage w → Packet w →
      Register protectionStorage w × Packet w × Outcome) (Flow : Packet w → Prop) : Prop where
  numbered : ∀ seqs p n, Flow p → seqs.read junk i=.ofNat w n → Numbered id n (send seqs p).2.1
  next : ∀ seqs p n, Flow p → seqs.read junk i=.ofNat w n → (send seqs p).1.read junk i=.ofNat w (n+1)
section Sender
variable {junk : Unspecified} {i : Nat} {id : BitVec 16}
  {send : Register protectionStorage w → Packet w →
    Register protectionStorage w × Packet w × Outcome} {Flow : Packet w → Prop}

@[simp] theorem length_sendAll (seqs : Register protectionStorage w) (ps : List (Packet w)) :
    (sendAll send seqs ps).length=ps.length := by
  induction ps generalizing seqs with
  | nil => rfl
  | cons p ps ih => rw [sendAll,length_cons,ih,length_cons]
variable {seqs : Register protectionStorage w}
theorem Numbers.sendAll (h : Numbers junk i id send Flow) {ps : List (Packet w)} (hflow : ∀ p ∈ ps, Flow p) {m : Nat}
    (hm : seqs.read junk i=.ofNat w m) {n : Nat} (hn : n<ps.length) :
    Numbered id (m+n) ((sendAll send seqs ps).getD n default) := by
  induction ps generalizing seqs m n with
  | nil => exact absurd hn (Nat.not_lt_zero n)
  | cons p ps ih =>
    have hp : Flow p := hflow p mem_cons_self
    cases n with
    | zero => exact h.numbered seqs p m hp hm
    | succ n =>
      have hrest := ih (fun q hq => hflow q (mem_cons_of_mem p hq)) (h.next seqs p m hp hm) (Nat.lt_of_succ_lt_succ hn)
      rwa [Nat.add_assoc,Nat.add_comm 1 n] at hrest

theorem Numbers.wire (h : Numbers junk i id send Flow)
    {ps : List (Packet w)} (hflow : ∀ p ∈ ps, Flow p) (hzero : seqs.read junk i=.ofNat w 0) :
    ∀ n<(Protect.sendAll send seqs ps).length, Numbered id n ((Protect.sendAll send seqs ps).getD n default) := by
  intro n hn
  rw [length_sendAll] at hn
  have hnumbered := h.sendAll hflow hzero hn
  rwa [Nat.zero_add] at hnumbered
end Sender

structure Selects (junk : Unspecified) (id : BitVec 16) (accepts : BitVec w → BitVec w → Bool)
    (receive : Register protectionStorage w → Packet w → Register protectionStorage w × Packet w × Bool) : Prop where
  accept : ∀ seqs p n, Numbered id n p → (receive seqs p).2.2=accepts (.ofNat w n) (seqs.read junk id.toNat)
  next : ∀ seqs p n, Numbered id n p → (receive seqs p).2.2 → (receive seqs p).1.read junk id.toNat=.ofNat w (n+1)
  stay : ∀ seqs p n, Numbered id n p → (receive seqs p).2.2=false →
    (receive seqs p).1.read junk id.toNat=seqs.read junk id.toNat
section Receiver
variable {junk : Unspecified} {id : BitVec 16} {accepts : BitVec w → BitVec w → Bool}
  {receive : Register protectionStorage w → Packet w → Register protectionStorage w × Packet w × Bool}

theorem Selects.of_read (h : ∀ seqs p n, Numbered id n p →
    (receive seqs p).2.2=accepts (.ofNat w n) (seqs.read junk id.toNat) ∧ (receive seqs p).1.read junk id.toNat =
        if accepts (.ofNat w n) (seqs.read junk id.toNat) then .ofNat w n+1
        else seqs.read junk id.toNat) : Selects junk id accepts receive where
  accept seqs p n hp := (h seqs p n hp).1
  next seqs p n hp hacc := by
    obtain ⟨haccept,hread⟩ := h seqs p n hp
    rw [hread,if_pos (haccept ▸ hacc)]
    exact (ofNat_add n 1).symm
  stay seqs p n hp hacc := by
    obtain ⟨haccept,hread⟩ := h seqs p n hp
    rw [hread,← haccept,hacc,if_neg Bool.false_ne_true]

/-- If within the window `accepts` compares sequence numbers as the numbers they stand for, the
stream is delivered once and in order. -/
theorem Selects.deliversExactlyOnce (h : Selects junk id accepts receive) {b : Nat}
    (hexact : ∀ e n, n<e+b → e<n+b → (accepts (.ofNat w n) (.ofNat w e) ↔ e≤n)) {wire : List (Packet w)}
    (hwire : ∀ n<wire.length, Numbered id n (wire.getD n default)) {seqs : Register protectionStorage w}
    (hzero : seqs.read junk id.toNat=0#w) : DeliversExactlyOnce b receive seqs wire := by
  intro arrivals harrivals hwindow
  have hstep : Exact b (copies receive wire) (· < wire.length) fun seqs e => seqs.read junk id.toNat=.ofNat w e := by
    constructor
    · intro seqs e n he hn hahead hbehind
      have haccept := h.accept seqs _ n (hwire n hn)
      rw [he] at haccept
      rw [← hexact e n hahead hbehind,← haccept]
      rfl
    · intro seqs e n _ hn hacc
      exact h.next seqs _ n (hwire n hn) hacc
    · intro seqs e n he hn hacc
      rw [← he]
      exact h.stay seqs _ n (hwire n hn) hacc
  exact hstep.inOrder hzero harrivals hwindow
end Receiver
namespace Tofino
variable (seq value : BitVec 32)
def accepts : Bool := (select seq value).2

theorem accepts_iff (e n : Nat) (hahead : n<e+2^31) (hbehind : e<n+2^31) :
    accepts (.ofNat 32 n) (.ofNat 32 e) ↔ e≤n := by
  have hsel (b : Prop) [Decidable b] (x y : BitVec 32) : (if b then (x,true) else (y,false)).2 ↔ b := by
    split <;> simp_all
  have hwindow : seqWindow.toNat=2^31 := rfl
  unfold accepts select
  split_ifs with hhalf
  · rw [assumedNextSeqAction,hsel]
    simp only [ge_iff_le,le_def,toNat_sub,toNat_ofNat,hwindow] at hhalf ⊢
    omega
  · rw [assumedNextSeqAction2,hsel]
    simp only [ge_iff_le,le_def,toNat_sub,toNat_ofNat,hwindow] at hhalf ⊢
    omega

theorem select_fst : (select seq value).1 = if accepts seq value then seq+1 else value := by
  unfold accepts select assumedNextSeqAction assumedNextSeqAction2
  split_ifs <;> simp_all

theorem decapsP_selects (junk : Unspecified) {id : BitVec 16} (hid : id.toNat<protectionStorage) :
    Selects junk id accepts (decapsP junk) := by
  refine .of_read fun seqs p n hp => ?_
  rw [decapsP,if_neg hp.noReset,hp.connId,hp.seq]
  refine ⟨rfl,?_⟩
  rw [read_write hid,if_pos rfl,select_fst]

structure Flow (T : Tables) (e : ProtectEntry) (p : Packet 32) : Prop where
  noReset : p.resetValid=false
  noRequest : p.ipv4.protocol≠typeIpProtectionRequest
  entry : T.protectedFlows p.flowKey=some e

theorem protectForward_numbers (junk : Unspecified) (T : Tables) {e : ProtectEntry} (hi : e.i.toNat<protectionStorage) :
    Numbers junk e.i.toNat e.id (protectForward junk T) (Flow T e) := by
  have heq (seqs : Seqs) (p : Packet 32) (hp : Flow T e p) : protectForward junk T seqs p =
        (seqs.write e.i.toNat (seqs.read junk e.i.toNat+1),
          { p.encapsulate e.id e.srcAddr e.dstAddr with
            protection.seq := seqs.read junk e.i.toNat },
          { mcastGrp := some e.grp }) := by
    rw [protectForward,if_neg hp.noRequest,hp.entry]
    exact if_neg (not_reset (p := p.encapsulate e.id e.srcAddr e.dstAddr) hp.noReset 0)
  constructor
  · intro seqs p n hp hn
    rw [heq seqs p hp]
    exact ⟨not_reset hp.noReset 1,rfl,hn⟩
  · intro seqs p n hp hn
    rw [heq seqs p hp,read_write hi,if_pos rfl,hn]
    exact (ofNat_add n 1).symm

structure Stream (junk : Unspecified) where
  tables : Tables
  entry : ProtectEntry
  packets : List (Packet 32)
  (sender receiver : Seqs)
  flow : ∀ p ∈ packets, Flow tables entry p
  index_lt : entry.i.toNat<protectionStorage
  id_lt : entry.id.toNat<protectionStorage
  sender_zero : sender.read junk entry.i.toNat=0
  receiver_zero : receiver.read junk entry.id.toNat=0

def Stream.wire {junk : Unspecified} (s : Stream junk) : List (Packet 32) :=
  sendAll (protectForward junk s.tables) s.sender s.packets
end Tofino
namespace Bmv2
theorem accepts_iff (e n : Nat) (hahead : n<e+127) (hbehind : e<n+127) : accepts (.ofNat 8 n) (.ofNat 8 e) ↔ e≤n := by
  have hhalf : (BitVec.ofNat 8 (seqMax/2)).toNat=127 := rfl
  have hsel (b c : Prop) [Decidable b] [Decidable c] : (if b then true else if c then true else false) ↔ b ∨ c := by
    split_ifs <;> simp_all
  rw [accepts,hsel]
  simp only [ge_iff_le,le_def,lt_def,toNat_sub,toNat_ofNat,hhalf]
  omega

theorem protectSelection_selects (junk : Unspecified) {id : BitVec 16}
    (hid : id.toNat<protectionStorage) : Selects junk id accepts (protectSelection junk) := by
  refine .of_read fun seqs p n hp => ?_
  rw [protectSelection,if_neg hp.noReset,hp.connId,hp.seq]
  dsimp only
  split_ifs with hacc
  · refine ⟨hacc.symm,?_⟩
    rw [read_write hid,if_pos rfl]
  · exact ⟨(Bool.eq_false_iff.mpr hacc).symm,rfl⟩

structure Flow (T : Tables) (e : ProtectEntry) (p : Packet 8) : Prop where
  noReset : p.resetValid=false
  entry : T.l3MatchToIndex p.flowKey=some e

theorem ipv4_numbers (junk : Unspecified) (T : Tables) {e : ProtectEntry} (hid : e.id.toNat<protectionStorage) :
    Numbers junk e.id.toNat e.id (ipv4 junk T) (Flow T e) := by
  have heq (seqs : Seqs) (p : Packet 8) (hp : Flow T e p) : ipv4 junk T seqs p=protect junk e seqs p := by
    rw [ipv4,if_neg (not_reset hp.noReset 0),hp.entry]
  constructor
  · intro seqs p n hp hn
    rw [heq seqs p hp]
    exact ⟨not_reset hp.noReset 1,rfl,hn⟩
  · intro seqs p n hp hn
    rw [heq seqs p hp,protect,hn,read_write hid,if_pos rfl]
    exact (ofNat_add n 1).symm

structure Stream (junk : Unspecified) where
  tables : Tables
  entry : ProtectEntry
  packets : List (Packet 8)
  (sender receiver : Seqs)
  flow : ∀ p ∈ packets, Flow tables entry p
  id_lt : entry.id.toNat<protectionStorage
  sender_zero : sender.read junk entry.id.toNat=0
  receiver_zero : receiver.read junk entry.id.toNat=0

def Stream.wire {junk : Unspecified} (s : Stream junk) : List (Packet 8) :=
  sendAll (ipv4 junk s.tables) s.sender s.packets
end Bmv2

/-- Both versions deliver every stream once and in order, over any number of wraps of the sequence
numbers: with 32-bit numbers for copies less than `2 ^ 31` packets away from the expected one, with
8-bit numbers for copies less than 127 packets away. -/
theorem protection_deliversExactlyOnce (junk : Unspecified) :
    (∀ s : Tofino.Stream junk, DeliversExactlyOnce (2^31) (Tofino.decapsP junk) s.receiver s.wire) ∧
    (∀ s : Bmv2.Stream junk, DeliversExactlyOnce 127 (Bmv2.protectSelection junk) s.receiver s.wire) := by
  constructor
  · intro s
    exact (Tofino.decapsP_selects junk s.id_lt).deliversExactlyOnce Tofino.accepts_iff
      ((Tofino.protectForward_numbers junk s.tables s.index_lt).wire s.flow s.sender_zero) s.receiver_zero
  · intro s
    exact (Bmv2.protectSelection_selects junk s.id_lt).deliversExactlyOnce Bmv2.accepts_iff
      ((Bmv2.ipv4_numbers junk s.tables s.id_lt).wire s.flow s.sender_zero) s.receiver_zero

private def unset : Unspecified := fun _ => 0

private def fourPackets32 : Tofino.Stream unset where
  tables := ⟨fun _ => some ⟨0,1,7,0,0⟩,fun _ => none⟩
  entry := ⟨0,1,7,0,0⟩
  packets := replicate 4 default
  sender := filled 0
  receiver := filled 0
  flow p hp := by rw [eq_of_mem_replicate hp]; exact ⟨rfl,by decide,rfl⟩
  index_lt := by decide
  id_lt := by decide
  sender_zero := rfl
  receiver_zero := rfl

private def fourPackets8 : Bmv2.Stream unset where
  tables := ⟨fun _ => some ⟨1,7,0,0⟩,fun _ => false,fun _ => none,fun _ => none⟩
  entry := ⟨1,7,0,0⟩
  packets := replicate 4 default
  sender := filled 0
  receiver := filled 0
  flow p hp := by rw [eq_of_mem_replicate hp]; exact ⟨rfl,rfl⟩
  id_lt := by decide
  sender_zero := rfl
  receiver_zero := rfl

/-- Packet 0 arrives over both paths, packet 1 is lost on both, and one copy of packet 2 comes late. -/
theorem fourPackets_deliveredOnce :
    (accepted (copies (Tofino.decapsP unset) fourPackets32.wire) fourPackets32.receiver [0,0,2,3,2] = [0,2,3] ∧
      InOrder (copies (Tofino.decapsP unset) fourPackets32.wire) fourPackets32.receiver [0,0,2,3,2]) ∧
    accepted (copies (Bmv2.protectSelection unset) fourPackets8.wire) fourPackets8.receiver [0,0,2,3,2] = [0,2,3] ∧
      InOrder (copies (Bmv2.protectSelection unset) fourPackets8.wire) fourPackets8.receiver [0,0,2,3,2] :=
  ⟨⟨by decide +kernel,(protection_deliversExactlyOnce unset).1 fourPackets32 _ (by decide) (by decide +kernel)⟩,
    by decide +kernel,(protection_deliversExactlyOnce unset).2 fourPackets8 _ (by decide) (by decide +kernel)⟩
end P4Benchmarks.Protect
