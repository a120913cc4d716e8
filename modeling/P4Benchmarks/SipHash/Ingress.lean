import Mathlib.Data.List.Basic
/-!
# HalfSipHash by recirculation

`halfsiphash24_ingressonly.p4`: each pass does two rounds, and `curr_round` says which.
-/
namespace P4Benchmarks.SipHash
open BitVec List
abbrev Word := BitVec 32

def slices (x : Word) (k : Nat) : Word := (x.extractLsb (31-k) 0++x.extractLsb 31 (32-k)).setWidth 32

structure State where
  (v0 v1 v2 v3 : Word)
  deriving Inhabited

def State.digest (v : State) : Word := v.v0^^^v.v1^^^v.v2^^^v.v3

structure SipMeta extends State where
  destPort : BitVec 16
  currRound : BitVec 8

structure Packet where
  dstPort : BitVec 16
  sip : List Word
  sipMeta : Option SipMeta

structure Pass extends State where
  (a0 a1 a2 a3 i0 i1 i2 i3 : Word)
  deriving Inhabited
namespace Pass
variable (s : Pass)
def sip1Odd : Pass := { s with v3 := s.v3^^^s.i0 }

def sip1A : Pass :=
  { s with
    a0 := s.v0+s.v1
    a2 := s.v2+s.v3
    a1 := slices s.v1 5 }

def sip1B : Pass := { s with a3 := slices s.v3 8 }

def sip2A : Pass :=
  { s with
    i1 := s.a1^^^s.a0
    i3 := s.a3^^^s.a2
    i0 := slices s.a0 16
    i2 := s.a2 }

def sip3A : Pass :=
  { s with
    a2 := s.i2+s.i1
    a0 := s.i0+s.i3
    a1 := slices s.i1 13 }

def sip3B : Pass := { s with a3 := slices s.i3 7 }

def sip4A : Pass :=
  { s with
    v1 := s.a1^^^s.a2
    v3 := s.a3^^^s.a0
    v2 := slices s.a2 16 }

def sip4BOdd : Pass := { s with v0 := s.a0 }
def sip4BEven : Pass := { s with v0 := s.a0^^^s.i0 }
end Pass

inductive RoundAction where
  | compression (i : Nat)
  | finalizationA
  | finalizationB
  deriving DecidableEq

def roundEntries (numWords : Nat) : List (BitVec 8 × RoundAction) :=
  (range numWords).map (fun i => (.ofNat 8 (i*2),.compression i)) ++
    [(.ofNat 8 (numWords*2),.finalizationA),(.ofNat 8 (numWords*2+2),.finalizationB)]

inductive RecircAction where
  | incrAndRecirc (nextRound : BitVec 8)
  | doNotRecirc
  deriving DecidableEq

def recircEntries (numWords : Nat) : List (BitVec 8 × RecircAction) :=
  (0,.incrAndRecirc 2)::(range numWords).map (fun i =>
    (.ofNat 8 (i*2+2),.incrAndRecirc (.ofNat 8 (i*2+4)))) ++
    [(.ofNat 8 (numWords*2+2),.doNotRecirc)]
variable (sip : List Word)
def startRound (s : Pass) : RoundAction → Pass
  | .compression i => { s with i0 := sip.getD i 0 }
  | .finalizationA => { s with i0 := 0, v2 := s.v2^^^0xff }
  | .finalizationB => { s with i0 := 0 }

def preEnd (s : Pass) : RoundAction → Pass
  | .compression i => { s with i0 := sip.getD i 0 }
  | .finalizationA => { s with i0 := 0 }
  | .finalizationB => { s with i0 := 0 }

/-- A table without a default action. -/
def apply (table : List (BitVec 8 × RoundAction)) (round : BitVec 8)
    (act : Pass → RoundAction → Pass) (s : Pass) : Pass :=
  match table.lookup round with
  | some a => act s a
  | none => s

def sipPort : BitVec 16 := 5555

def sipInit (key0 key1 : Word) : State :=
  ⟨key0^^^0x70736575,key1^^^0x6e646f6d,key0^^^0x6e657261,key1^^^0x79746573⟩

def parse (pkt : Packet) : Option Packet :=
  if pkt.dstPort=sipPort then some { pkt with sipMeta := none }
  else if pkt.dstPort=sipPort+1 ∧ pkt.sipMeta.isSome then some pkt
  else none

def twoRounds (round : BitVec 8) (s : Pass) : Pass :=
  let s := s.sip1Odd.sip1A.sip1B.sip2A.sip3A.sip3B.sip4A.sip4BOdd
  let s := s.sip1A.sip1B.sip2A.sip3A.sip3B
  (apply (roundEntries sip.length) round (preEnd sip) s).sip4A.sip4BEven

inductive Verdict where
  | recirculated (port : BitVec 9) (pkt : Packet)
  | sent (port : BitVec 9) (pkt : Packet)
  | nop (pkt : Packet)
variable (key0 key1 : Word) (ingressPort : BitVec 9)
def ingress (junk : Pass) (rnd : Bool) (pkt : Packet) : Verdict :=
  let sipMeta := pkt.sipMeta.getD ⟨sipInit key0 key1,ingressPort.setWidth 16,0⟩
  let s : Pass := { junk with toState := sipMeta.toState }
  let s := match pkt.sipMeta with
    | none => startRound pkt.sip s (.compression 0)
    | some m => apply (roundEntries pkt.sip.length) m.currRound (startRound pkt.sip) s
  let s := twoRounds pkt.sip sipMeta.currRound s
  match (recircEntries pkt.sip.length).lookup sipMeta.currRound with
  | some (.incrAndRecirc next) => .recirculated (if rnd then 68+128 else 68)
    { pkt with
      dstPort := sipPort+1
      sipMeta := some { sipMeta with toState := s.toState, currRound := next } }
  | some .doNotRecirc => .sent (sipMeta.destPort.setWidth 9)
    { dstPort := sipPort
      sip := (List.replicate pkt.sip.length 0).set 0 s.toState.digest
      sipMeta := none }
  | none => .nop { pkt with sipMeta := some { sipMeta with toState := s.toState } }

def process (junk : Nat → Pass) (rnd : Nat → Bool) : Nat → Nat → Packet → Option (Nat × BitVec 9 × Packet)
  | 0, _, _ => none
  | fuel+1, n, pkt => do
    match ingress key0 key1 ingressPort (junk n) (rnd n) (← parse pkt) with
    | .recirculated _ pkt => process junk rnd fuel (n+1) pkt
    | .sent port pkt => some (n,port,pkt)
    | .nop _ => none
variable (v : State)
def sipRound : State :=
  let v0 := v.v0+v.v1
  let v1 := v.v1.rotateLeft 5^^^v0
  let v2 := v.v2+v.v3
  let v3 := v.v3.rotateLeft 8^^^v2
  let v0 := v0.rotateLeft 16+v3
  let v2 := v2+v1
  ⟨v0,v1.rotateLeft 13^^^v2,v2.rotateLeft 16,v3.rotateLeft 7^^^v0⟩

def compress (m : Word) : State :=
  let w := sipRound (sipRound { v with v3 := v.v3^^^m })
  { w with v0 := w.v0^^^m }

def halfSipHash (ms : List Word) : Word :=
  let v := ms.foldl compress (sipInit key0 key1)
  (sipRound (sipRound (sipRound (sipRound { v with v2 := v.v2^^^0xff })))).digest

theorem slices_eq_rotateLeft (x : Word) {k : Nat} (hk : k<31) : slices x (k+1)=x.rotateLeft (k+1) := by
  ext i hi
  simp only [slices,getElem_setWidth,getLsbD_append,getElem_rotateLeft]
  grind

def after : RoundAction → State
  | .compression i => compress v (sip.getD i 0)
  | .finalizationA => sipRound (sipRound { v with v2 := v.v2^^^0xff })
  | .finalizationB => sipRound (sipRound v)

theorem twoRounds_eq_compress {sip : List Word} {round : BitVec 8} {s : Pass}
    (hend : ∀ t, apply (roundEntries sip.length) round (preEnd sip) t={ t with i0 := s.i0 }) :
    (twoRounds sip round s).toState=compress s.toState s.i0 := by
  simp (disch := decide) only [twoRounds,hend,Pass.sip1Odd,Pass.sip1A,Pass.sip1B,Pass.sip2A,
    Pass.sip3A,Pass.sip3B,Pass.sip4A,Pass.sip4BOdd,Pass.sip4BEven,compress,sipRound,
    slices_eq_rotateLeft]

theorem twoRounds_startRound {sip : List Word} {round : BitVec 8} {act : RoundAction}
    (hround : (roundEntries sip.length).lookup round=some act) (s : Pass) :
    (twoRounds sip round (startRound sip s act)).toState=after sip s.toState act := by
  rw [twoRounds_eq_compress]
  · cases act <;> simp [startRound,after,compress]
  · intro t
    cases act <;> simp [apply,hround,preEnd,startRound]
variable {key0 key1 ingressPort} {junk : Nat → Pass} {rnd : Nat → Bool} {sip : List Word}
  {fuel n : Nat} {v : State} {destPort : BitVec 16} {round next : BitVec 8} {act : RoundAction}

theorem process_first {m : Option SipMeta} (hround : (roundEntries sip.length).lookup 0#8=some (.compression 0)) :
    process key0 key1 ingressPort junk rnd (fuel+1) n ⟨sipPort,sip,m⟩=
      process key0 key1 ingressPort junk rnd fuel (n+1) ⟨sipPort+1,sip,some
        ⟨compress (sipInit key0 key1) (sip.getD 0 0),ingressPort.setWidth 16,2⟩⟩ := by
  simp [process,parse,ingress,recircEntries,twoRounds_startRound hround,after]

theorem process_recirculated (hround : (roundEntries sip.length).lookup round=some act)
    (hnext : (recircEntries sip.length).lookup round=some (.incrAndRecirc next)) :
    process key0 key1 ingressPort junk rnd (fuel+1) n ⟨sipPort+1,sip,some ⟨v,destPort,round⟩⟩=
      process key0 key1 ingressPort junk rnd fuel (n+1) ⟨sipPort+1,sip,some ⟨after sip v act,destPort,next⟩⟩ := by
  simp [process,parse,ingress,sipPort,hnext,apply,hround,twoRounds_startRound hround]

theorem process_sent (hround : (roundEntries sip.length).lookup round=some act)
    (hlast : (recircEntries sip.length).lookup round=some .doNotRecirc) :
    process key0 key1 ingressPort junk rnd (fuel+1) n ⟨sipPort+1,sip,some ⟨v,ingressPort.setWidth 16,round⟩⟩=
      some (n,ingressPort,⟨sipPort,(List.replicate sip.length 0).set 0 (after sip v act).digest,none⟩) := by
  simp [process,parse,ingress,sipPort,hlast,apply,hround,twoRounds_startRound hround]

theorem lookup_compression : ∀ n≤4, ∀ k<n, (roundEntries n).lookup (.ofNat 8 (k*2))=some (.compression k) ∧
      (recircEntries n).lookup (.ofNat 8 (k*2))= some (.incrAndRecirc (.ofNat 8 ((k+1)*2))) := by decide

theorem lookup_finalization : ∀ n≤4, 1≤n → (roundEntries n).lookup (.ofNat 8 (n*2))=some .finalizationA ∧
      (recircEntries n).lookup (.ofNat 8 (n*2))= some (.incrAndRecirc (.ofNat 8 (n*2+2))) ∧
      (roundEntries n).lookup (.ofNat 8 (n*2+2))=some .finalizationB ∧
      (recircEntries n).lookup (.ofNat 8 (n*2+2))=some .doNotRecirc := by decide

theorem foldl_take_succ {k : Nat} (hk : k < sip.length) :
    (sip.take (k+1)).foldl compress v=compress ((sip.take k).foldl compress v) (sip.getD k 0) := by
  rw [take_succ_eq_append_getElem hk,foldl_append]
  simp [hk]

theorem process_words (hpos : 1 ≤ sip.length) (hlen : sip.length≤4) {d k : Nat}
    (hk : k+d=sip.length) (hfuel : fuel=d+2) :
    process key0 key1 ingressPort junk rnd fuel k ⟨sipPort+1,sip,some
        ⟨(sip.take k).foldl compress (sipInit key0 key1),ingressPort.setWidth 16,.ofNat 8 (k*2)⟩⟩=
      some (sip.length+1,ingressPort,
        ⟨sipPort,(List.replicate sip.length 0).set 0 (halfSipHash key0 key1 sip),none⟩) := by
  subst hfuel
  induction d generalizing k with
  | zero =>
    obtain rfl : k=sip.length := hk
    obtain ⟨hstart,hnext,hround,hlast⟩ := lookup_finalization _ hlen hpos
    rw [process_recirculated hstart hnext,process_sent hround hlast,take_length]
    rfl
  | succ d ih =>
    obtain ⟨hstart,hnext⟩ := lookup_compression _ hlen k (by omega)
    rw [process_recirculated hstart hnext,after,← foldl_take_succ (by omega)]
    exact ih (by omega)

theorem hashed_by_recirculation (key0 key1 : Word) (ingressPort : BitVec 9) (junk : Nat → Pass)
    (rnd : Nat → Bool) (sip : List Word) (m : Option SipMeta) (hlen : 1 ≤ sip.length ∧ sip.length≤4) :
    process key0 key1 ingressPort junk rnd (sip.length+2) 0 ⟨sipPort,sip,m⟩= some (sip.length+1,ingressPort,
        ⟨sipPort,(List.replicate sip.length 0).set 0 (halfSipHash key0 key1 sip),none⟩) := by
  obtain ⟨hpos,hle⟩ := hlen
  obtain ⟨d,hd⟩ := Nat.exists_eq_add_of_le hpos
  have hfirst : compress (sipInit key0 key1) (sip.getD 0 0)=
      (sip.take 1).foldl compress (sipInit key0 key1) := (foldl_take_succ hpos).symm
  rw [process_first (lookup_compression _ hle 0 hpos).1,hfirst]
  exact process_words hpos hle hd.symm (by omega)

theorem hashed_twoWords : 1 ≤ [1#32,2#32].length ∧
    process 0x33323130 0x42413938 3 default (fun _ => true) 4 0 ⟨sipPort,[1#32,2#32],none⟩=
      some (3,3,⟨sipPort,[halfSipHash 0x33323130 0x42413938 [1#32,2#32],0],none⟩) :=
  ⟨by decide,hashed_by_recirculation _ _ _ _ _ [1,2] _ (by decide)⟩
end P4Benchmarks.SipHash
