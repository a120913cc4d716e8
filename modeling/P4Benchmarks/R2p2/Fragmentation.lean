import P4Benchmarks.R2p2.Message
/-!
# The copy loop of `r2p2_prepare_msg`

The loop moves through the pieces of the message and through the buffers at the same time and copies
as much as both have.  It fills the buffers byte by byte as `r2p2PrepareMsg` says.
-/
namespace P4Benchmarks.R2p2
open Lib List Option Filling
/-- A buffer: its header, the bytes copied behind it, and the size that has been set for it. -/
structure Buffer where
  header : Header
  data : List Byte
  size : Option Nat
deriving DecidableEq

def Buffer.packet (b : Buffer) : Option Packet :=
  match b.size with
  | none => none
  | some size =>
    if size≤headerBytes+b.data.length then some ⟨b.header,b.data.take (size-headerBytes)⟩
    else none

theorem Buffer.packet_of_size {b : Buffer} (h : b.size=some (headerBytes+b.data.length)) :
    b.packet=some ⟨b.header,b.data⟩ := by
  simp [packet,h]

/-- The variables of the loop.  `chain` has the buffers before `gb`, the newest one first. -/
structure CopyState where
  (iovIdx bufferleft copied bufferCnt : Nat)
  isFirst : Bool
  chain : List Buffer
  gb : Option Buffer

@[local simp] def CopyState.init : CopyState := ⟨0,0,0,0,true,[],none⟩

def newHeader (reqType : MsgType) (policy : Policy) (reqId : BitVec 16) (bufferCnt : Nat) : Header where
  magic := magicByte
  headerSize := .ofNat 8 headerBytes
  typePolicy := (reqType.code<<<4)|||(0x0F&&&policy.code)
  flags := 0
  rid := reqId
  pOrder := .ofNat 16 bufferCnt
namespace CopyState
variable (header : Nat → Header) (shouldSmallFirst : Bool) (iovs : List (List Byte))
variable (st : CopyState)
/-- The buffer that is full gets its size, and a new one comes after it.  `is_first` is cleared with
the second buffer, and only if the first one is small. -/
def takeBuffer : CopyState :=
  let small := st.isFirst&&shouldSmallFirst
  let fullSize := if small then minPayloadSize+headerBytes else payloadSize+headerBytes
  let chain := (st.gb.map fun gb => { gb with size := some fullSize }).toList++st.chain
  let isFirst := if st.gb.isSome&&small then false else st.isFirst
  { st with
    chain := chain
    gb := some ⟨header st.bufferCnt,[],none⟩
    isFirst := isFirst
    bufferCnt := st.bufferCnt+1
    bufferleft := if isFirst&&shouldSmallFirst then minPayloadSize else payloadSize }

def copyPiece (src : List Byte) : CopyState :=
  let tocopy := min st.bufferleft (src.length-st.copied)
  let piece := (src.drop st.copied).take tocopy
  let st :=
    { st with
      gb := st.gb.map fun gb => { gb with data := gb.data++piece }
      copied := st.copied+tocopy
      bufferleft := st.bufferleft-tocopy }
  if st.copied=src.length then { st with iovIdx := st.iovIdx+1, copied := 0 } else st

def copyStep (src : List Byte) : CopyState :=
  let st := if st.bufferleft=0 then st.takeBuffer header shouldSmallFirst else st
  st.copyPiece src

def copyLoop : Nat → CopyState → Option CopyState
  | 0, st => if st.iovIdx < iovs.length then none else some st
  | fuel+1, st =>
    match iovs[st.iovIdx]? with
    | none => some st
    | some src => copyLoop fuel (st.copyStep header shouldSmallFirst src)

def setFirst (bufferCnt : Nat) (b : Buffer) : Buffer :=
  { b with
    header := { b.header with flags := b.header.flags|||fFlag, pOrder := .ofNat 16 bufferCnt } }

def setLast (b : Buffer) : Buffer := { b with header := { b.header with flags := b.header.flags|||lFlag } }

def finish (gb : Buffer) : List Buffer :=
  let last := { gb with size := some (payloadSize+headerBytes-st.bufferleft) }
  let bufs := st.chain.reverse++[last]
  (bufs.modify 0 (setFirst st.bufferCnt)).modify st.chain.length setLast
end CopyState

def isSinglePacketMsg (totalPayload : Nat) : List (List Byte) → Bool
  | [] => true
  | iov::iovs =>
    if totalPayload+iov.length > payloadSize then false
    else isSinglePacketMsg (totalPayload+iov.length) iovs

def prepareMsgLoop (iovs : List (List Byte)) (reqType : MsgType) (policy : Policy)
    (reqId : BitVec 16) : Option (List Packet) := do
  let shouldSmallFirst := !isSinglePacketMsg 0 iovs&&reqType=.requestMsg
  let st ← CopyState.copyLoop (newHeader reqType policy reqId) shouldSmallFirst iovs
    (iovs.flatten.length+iovs.length) .init
  let gb ← st.gb
  (st.finish gb).mapM Buffer.packet
variable {shouldSmallFirst : Bool} (f : Filling)
theorem Filling.withRoom_withRoom :
    (f.withRoom shouldSmallFirst).withRoom shouldSmallFirst=f.withRoom shouldSmallFirst := by
  have hroom : ∀ i, ∃ n, bufferRoom shouldSmallFirst i=n+1 := by
    intro i
    unfold bufferRoom
    split_ifs
    · exact ⟨13,rfl⟩
    · exact ⟨1463,rfl⟩
  obtain ⟨full,cur⟩ := f
  rcases cur with _ | ⟨p,_ | n⟩
  · obtain ⟨n,hn⟩ := hroom full.length
    simp [withRoom,hn]
  · obtain ⟨n,hn⟩ := hroom (full.length+1)
    simp [withRoom,hn]
  · rfl

theorem Filling.putIov_of_ne_nil {iov : List Byte} (hne : iov≠[]) :
    f.putIov shouldSmallFirst iov=iov.foldl (put shouldSmallFirst) f := by
  obtain ⟨b,iov,rfl⟩ := exists_cons_of_ne_nil hne
  rw [putIov,foldl_cons,foldl_cons,put,put,withRoom_withRoom]
namespace CopyState
variable {header : Nat → Header} {shouldSmallFirst : Bool} {iovs : List (List Byte)} {st : CopyState}
def filling (st : CopyState) : Filling where
  full := st.chain.map Buffer.data
  cur := st.gb.map fun gb => (gb.data.reverse,st.bufferleft)

structure Sound (header : Nat → Header) (shouldSmallFirst : Bool) (st : CopyState) : Prop where
  start : st.gb=none → st.chain=[] ∧ st.bufferleft=0
  first : shouldSmallFirst → (st.isFirst ↔ st.chain=[])
  room : ∀ gb ∈ st.gb, gb.data.length+st.bufferleft=bufferRoom shouldSmallFirst st.chain.length
  sizes : ∀ b ∈ st.chain, b.size=some (headerBytes+b.data.length)
  headers : (st.chain.reverse++st.gb.toList).map Buffer.header = (List.range st.bufferCnt).map header

theorem Sound.init : Sound header shouldSmallFirst init := by refine ⟨?_,?_,?_,?_,?_⟩ <;> simp

section
variable (hst : Sound header shouldSmallFirst st)
include hst
theorem Sound.room_eq : (if st.isFirst&&shouldSmallFirst then minPayloadSize else payloadSize) =
      bufferRoom shouldSmallFirst st.chain.length := by
  cases shouldSmallFirst with
  | false => simp [bufferRoom]
  | true =>
    have hfirst := hst.first rfl
    by_cases hchain : st.chain=[]
    · simp [bufferRoom,hchain,hfirst.mpr hchain]
    · simp [bufferRoom,hchain,mt hfirst.mp hchain]

theorem Sound.takeBuffer (hleft : st.bufferleft=0) :
    Sound header shouldSmallFirst (st.takeBuffer header shouldSmallFirst) ∧
      (st.takeBuffer header shouldSmallFirst).filling=st.filling.withRoom shouldSmallFirst := by
  have hroom_eq := hst.room_eq
  obtain ⟨hstart,hfirst,hroom,hsizes,hheaders⟩ := hst
  cases hgb : st.gb with
  | none =>
    obtain ⟨hchain,-⟩ := hstart hgb
    rw [hchain] at hroom_eq hfirst
    refine ⟨⟨?_,?_,?_,?_,?_⟩,?_⟩
    · simp [CopyState.takeBuffer]
    · simpa [CopyState.takeBuffer,hgb,hchain] using hfirst
    · simpa [CopyState.takeBuffer,hgb,hchain] using hroom_eq
    · simp [CopyState.takeBuffer,hgb,hchain]
    · simp [CopyState.takeBuffer,hgb,hchain,range_succ,← hheaders]
    · simp [CopyState.takeBuffer,filling,Filling.withRoom,hgb,hchain]
      simpa using hroom_eq
  | some gb =>
    have hsize := hroom gb (by rw [hgb]; rfl)
    rw [hleft,Nat.add_zero,← hroom_eq] at hsize
    -- Behind the first buffer `is_first` does not matter any more.
    have hlater : (st.takeBuffer header shouldSmallFirst).bufferleft=payloadSize := by
      cases shouldSmallFirst <;> cases hisFirst : st.isFirst <;> simp [CopyState.takeBuffer,hgb,hisFirst]
    refine ⟨⟨?_,?_,?_,?_,?_⟩,?_⟩
    · simp [CopyState.takeBuffer]
    · rintro rfl
      simp [CopyState.takeBuffer,hgb]
    · intro gb' hgb'
      cases hgb'
      rw [hlater]
      simp [CopyState.takeBuffer,hgb,bufferRoom]
    · intro b hb
      simp only [CopyState.takeBuffer,hgb] at hb
      rcases mem_cons.mp hb with rfl | hb
      · split_ifs at hsize ⊢ <;> simp [hsize,Nat.add_comm]
      · exact hsizes b hb
    · simp [CopyState.takeBuffer,hgb,range_succ,← hheaders]
    · rw [filling,hlater]
      simp [CopyState.takeBuffer,filling,Filling.withRoom,hgb,hleft,bufferRoom]

theorem Sound.withRoom : ∃ st', st'=(if st.bufferleft=0 then st.takeBuffer header shouldSmallFirst else st) ∧
      Sound header shouldSmallFirst st' ∧ st'.filling=st.filling.withRoom shouldSmallFirst ∧
      st'.iovIdx=st.iovIdx ∧ st'.copied=st.copied ∧ 0 < st'.bufferleft := by
  refine ⟨_,rfl,?_⟩
  split_ifs with hleft
  · obtain ⟨hst',hfilling⟩ := hst.takeBuffer hleft
    refine ⟨hst',hfilling,rfl,rfl,?_⟩
    simp only [CopyState.takeBuffer]
    split_ifs <;> decide
  · refine ⟨hst,?_,rfl,rfl,Nat.pos_of_ne_zero hleft⟩
    cases hgb : st.gb with
    | none => exact absurd (hst.start hgb).2 hleft
    | some gb =>
      obtain ⟨n,hn⟩ := Nat.exists_eq_succ_of_ne_zero hleft
      simp [filling,hgb,hn,Filling.withRoom]

theorem Sound.put {gb : Buffer} (hgb : st.gb=some gb)
    {piece : List Byte} (hfits : piece.length ≤ st.bufferleft) {st' : CopyState}
    (hgb' : st'.gb=some { gb with data := gb.data++piece }) (hchain : st'.chain=st.chain)
    (hleft : st'.bufferleft=st.bufferleft-piece.length) (hcnt : st'.bufferCnt=st.bufferCnt)
    (hisFirst : st'.isFirst=st.isFirst) :
    Sound header shouldSmallFirst st' ∧ st'.filling=piece.foldl (Filling.put shouldSmallFirst) st.filling := by
  obtain ⟨-,hfirst,hroom,hsizes,hheaders⟩ := hst
  have hroom := hroom gb hgb
  refine ⟨⟨?_,?_,?_,?_,?_⟩,?_⟩
  · simp [hgb']
  · rwa [hchain,hisFirst]
  · intro b hb
    rw [hgb',mem_some_iff] at hb
    rw [← hb,hchain,hleft,← hroom,length_append]
    omega
  · rwa [hchain]
  · simpa [hgb,hgb',hchain,hcnt] using hheaders
  · rw [filling,filling,hgb,hgb',hchain,hleft,map_some,map_some,
      foldl_put hfits,reverse_append]

theorem Sound.copyPiece (hleft : 0 < st.bufferleft) {src : List Byte} (hcopied : st.copied ≤ src.length) :
    (Sound header shouldSmallFirst (st.copyPiece src) ∧ (st.copyPiece src).filling =
        ((src.drop st.copied).take st.bufferleft).foldl (Filling.put shouldSmallFirst) st.filling) ∧
      if (src.drop st.copied).length ≤ st.bufferleft then
        (st.copyPiece src).iovIdx=st.iovIdx+1 ∧ (st.copyPiece src).copied=0
      else
        (st.copyPiece src).iovIdx=st.iovIdx ∧ (st.copyPiece src).copied=st.copied+st.bufferleft := by
  obtain ⟨gb,hgb⟩ : ∃ gb, st.gb=some gb := by
    cases hgb : st.gb with
    | none => exact absurd (hst.start hgb).2 (Nat.ne_of_gt hleft)
    | some gb => exact ⟨gb,rfl⟩
  have hpiece : (src.drop st.copied).take (min st.bufferleft (src.length-st.copied)) =
      (src.drop st.copied).take st.bufferleft := by
    rw [take_eq_take_iff,length_drop]
    omega
  have hlength : ((src.drop st.copied).take st.bufferleft).length = min st.bufferleft (src.length-st.copied) := by
    rw [length_take,length_drop]
  have hput := @Sound.put _ _ _ hst gb hgb ((src.drop st.copied).take st.bufferleft) (length_take_le _ _)
  rw [length_drop]
  by_cases hdone : src.length-st.copied ≤ st.bufferleft
  · have hend : st.copied+min st.bufferleft (src.length-st.copied)=src.length := by omega
    rw [if_pos hdone]
    constructor
    · apply hput <;> simp [CopyState.copyPiece,hend,hpiece,hgb,hlength]
    · simp [CopyState.copyPiece,hend]
  · have hend : st.copied+min st.bufferleft (src.length-st.copied)≠src.length := by omega
    constructor
    · apply hput <;> simp [CopyState.copyPiece,hend,hpiece,hgb,hlength]
    · simp [CopyState.copyPiece,hend]
      omega
end

def remaining (iovs : List (List Byte)) (st : CopyState) : List (List Byte) :=
  match iovs.drop st.iovIdx with
  | [] => []
  | src::rest => src.drop st.copied::rest

theorem remaining_of_drop {src : List Byte} {rest : List (List Byte)}
    (h : iovs.drop st.iovIdx=src::rest) : st.remaining iovs=src.drop st.copied::rest := by
  simp [remaining,h]

theorem remaining_of_copied (h : st.copied=0) : st.remaining iovs=iovs.drop st.iovIdx := by
  rw [remaining]
  split <;> simp_all

theorem remaining_eq_nil (h : iovs.length ≤ st.iovIdx) : st.remaining iovs=[] := by rw [remaining,drop_eq_nil_of_le h]

theorem copyLoop_spec (hst : Sound header shouldSmallFirst st)
    (hcopied : ∀ src ∈ iovs[st.iovIdx]?, st.copied ≤ src.length) {fuel : Nat}
    (hfuel : (st.remaining iovs).flatten.length+(st.remaining iovs).length≤fuel) :
    ∃ st', copyLoop header shouldSmallFirst iovs fuel st=some st' ∧ Sound header shouldSmallFirst st' ∧
      st'.filling=(st.remaining iovs).foldl (Filling.putIov shouldSmallFirst) st.filling := by
  induction fuel generalizing st with
  | zero =>
    have hidx : iovs.length ≤ st.iovIdx := by
      by_contra hlt
      rw [not_le] at hlt
      rw [remaining_of_drop (drop_eq_getElem_cons hlt)] at hfuel
      simp at hfuel
    exact ⟨st,by simp [copyLoop,hidx],hst,by simp [remaining_eq_nil hidx]⟩
  | succ fuel ih =>
    cases hsrc : iovs[st.iovIdx]? with
    | none =>
      have hidx : iovs.length ≤ st.iovIdx := List.getElem?_eq_none_iff.mp hsrc
      exact ⟨st,by simp [copyLoop,hsrc],hst,by simp [remaining_eq_nil hidx]⟩
    | some src =>
      obtain ⟨hlt,hget⟩ := List.getElem?_eq_some_iff.mp hsrc
      obtain ⟨rest,hdrop⟩ : ∃ rest, iovs.drop st.iovIdx=src::rest := ⟨_,by rw [drop_eq_getElem_cons hlt,hget]⟩
      have hrest : iovs.drop (st.iovIdx+1)=rest := by
        rw [← drop_drop,hdrop]
        rfl
      obtain ⟨st₁,hst₁,hsound,hfilling,hidx,hcop,hleft⟩ := hst.withRoom
      have hstep : st.copyStep header shouldSmallFirst src=st₁.copyPiece src := by rw [copyStep,← hst₁]
      rw [remaining_of_drop hdrop] at hfuel ⊢
      rw [← hcop] at hcopied hfuel ⊢
      obtain ⟨⟨hsound',hfilling'⟩,hcursor⟩ := hsound.copyPiece hleft (hcopied src hsrc)
      simp only [copyLoop,hsrc,hstep]
      split_ifs at hcursor with hdone
      · -- The piece is done.
        obtain ⟨hidx',hcop'⟩ := hcursor
        have hnext : (st₁.copyPiece src).remaining iovs=rest := by rw [remaining_of_copied hcop',hidx',hidx,hrest]
        obtain ⟨st',hloop,hst',hfill⟩ := ih hsound' (by simp [hcop']) (by
          rw [hnext]
          simp at hfuel ⊢
          omega)
        refine ⟨st',hloop,hst',?_⟩
        rw [hfill,hnext,hfilling',take_of_length_le hdone,hfilling,foldl_cons,Filling.putIov]
      · -- The buffer is full.
        obtain ⟨hidx',hcop'⟩ := hcursor
        have hnext : (st₁.copyPiece src).remaining iovs = (src.drop st₁.copied).drop st₁.bufferleft::rest := by
          rw [remaining_of_drop (by rw [hidx',hidx,hdrop]),hcop',drop_drop]
        have hne : (src.drop st₁.copied).drop st₁.bufferleft≠[] := by
          rw [Ne,drop_eq_nil_iff]
          exact hdone
        obtain ⟨st',hloop,hst',hfill⟩ := ih hsound' (by
          rw [hidx',hidx,hcop',hsrc]
          simp at hdone ⊢
          omega) (by
          rw [hnext]
          simp at hfuel hdone ⊢
          omega)
        refine ⟨st',hloop,hst',?_⟩
        rw [hfill,hnext,hfilling',hfilling,foldl_cons,foldl_cons,
          putIov_of_ne_nil _ hne,← foldl_append,take_append_drop,
          Filling.putIov]
end CopyState
variable {iovs : List (List Byte)}
theorem isSinglePacketMsg_eq {total : Nat} (htotal : total≤payloadSize) :
    isSinglePacketMsg total iovs=decide (total+iovs.flatten.length≤payloadSize) := by
  induction iovs generalizing total with
  | nil => simp [isSinglePacketMsg,htotal]
  | cons iov iovs ih =>
    rw [isSinglePacketMsg,flatten_cons,length_append]
    split_ifs with hlong
    · simp
      omega
    · rw [ih (by omega),Nat.add_assoc]

theorem mapM_eq_some_map {α β : Type} {f : α → Option β} {g : α → β} {l : List α}
    (h : ∀ a ∈ l, f a=some (g a)) : l.mapM f=some (l.map g) := by
  induction l with
  | nil => rfl
  | cons a l ih =>
    have hl := ih fun b hb => h b (mem_cons_of_mem a hb)
    simp [mapM_cons,h a mem_cons_self,hl]
namespace CopyState
variable {shouldSmallFirst : Bool} {st : CopyState} {gb : Buffer} {reqType : MsgType}
  {policy : Policy} {reqId : BitVec 16}

theorem header_finish {n i : Nat} {b : Buffer} (hb : b.header=newHeader reqType policy reqId i) :
    (if n=i then setLast (if 0=i then setFirst (n+1) b else b)
      else if 0=i then setFirst (n+1) b else b).header =
      packetHeader reqType policy reqId (n+1) i := by
  by_cases hi : 0=i
  · subst hi
    by_cases hn : n=0 <;> simp [setFirst,setLast,hb,newHeader,packetHeader,hn,fFlag,lFlag]
  · have hi' : i≠0 := Ne.symm hi
    by_cases hn : n=i
    · simp [setLast,hb,newHeader,packetHeader,hn,hi,hi']
    · have hn' : i≠n := Ne.symm hn
      simp [hb,newHeader,packetHeader,hn,hn',hi,hi']

theorem finish_packet (hst : Sound (newHeader reqType policy reqId) shouldSmallFirst st) (hgb : st.gb=some gb)
    (hlast : gb.data.length+st.bufferleft=payloadSize) {i : Nat} {b : Buffer} (hb : (st.finish gb)[i]?=some b) :
    b.packet=some ⟨b.header,b.data⟩ ∧ b.header=packetHeader reqType policy reqId (st.chain.length+1) i ∧
    (st.filling.payloads)[i]?=some b.data := by
  have hcnt : st.bufferCnt=st.chain.length+1 := by
    have hlength := congrArg List.length hst.headers
    simpa [hgb] using hlength.symm
  simp only [finish,List.getElem?_modify,Option.map_eq_map,map_eq_some_iff] at hb
  obtain ⟨_,⟨b₀,hb₀,rfl⟩,rfl⟩ := hb
  have hheader : b₀.header=newHeader reqType policy reqId i := by
    have hmap := congrArg (Option.map Buffer.header) hb₀
    rw [← List.getElem?_map,map_append] at hmap
    have hheaders := hst.headers
    rw [hgb,map_append] at hheaders
    have hrange : ((List.range st.bufferCnt).map (newHeader reqType policy reqId))[i]? = some b₀.header := by
      rw [← hheaders]
      exact hmap
    rw [List.getElem?_map,map_eq_some_iff] at hrange
    obtain ⟨j,hj,hheader⟩ := hrange
    obtain ⟨hlt,hget⟩ := List.getElem?_eq_some_iff.mp hj
    rw [← hheader,← hget,getElem_range]
  have hsize : b₀.size=some (headerBytes+b₀.data.length) := by
    rcases mem_append.mp (mem_of_getElem? hb₀) with hmem | hmem
    · exact hst.sizes b₀ (mem_reverse.mp hmem)
    · rw [mem_singleton.mp hmem]
      simp only [some.injEq]
      omega
  have hdata : st.filling.payloads[i]?=some b₀.data := by
    have hpayloads : st.filling.payloads=(st.chain.reverse++[gb]).map Buffer.data := by simp [filling,payloads,hgb]
    have hmap := congrArg (Option.map Buffer.data) hb₀
    rw [← List.getElem?_map,map_append] at hmap
    rw [hpayloads,map_append]
    exact hmap
  have hfinish := header_finish (n := st.chain.length) hheader
  rw [hcnt]
  refine ⟨?_,hfinish,?_⟩
  · apply Buffer.packet_of_size
    split_ifs <;> exact hsize
  · rw [hdata]
    split_ifs <;> rfl
end CopyState

theorem CopyState.Sound.last_room {header : Nat → Header} {st : CopyState} {gb : Buffer}
    (hst : Sound header shouldSmallFirst st) (hgb : st.gb=some gb) (hflatten : st.filling.payloads.flatten=iovs.flatten)
    (hlong : shouldSmallFirst → payloadSize < iovs.flatten.length) : gb.data.length+st.bufferleft=payloadSize := by
  rw [hst.room gb hgb,bufferRoom,if_neg]
  rintro ⟨hchain,hsmall⟩
  have hroom := hst.room gb hgb
  rw [bufferRoom,if_pos ⟨hchain,hsmall⟩] at hroom
  have hlength := hlong hsmall
  rw [← hflatten] at hlength
  simp [filling,payloads,hgb,eq_nil_of_length_eq_zero hchain] at hlength
  simp only [payloadSize,minPayloadSize,headerBytes] at hlength hroom
  omega

theorem prepareMsgLoop_eq (hne : iovs≠[]) (reqType : MsgType) (policy : Policy) (reqId : BitVec 16) :
    prepareMsgLoop iovs reqType policy reqId=some (r2p2PrepareMsg iovs reqType policy reqId) := by
  have hsmall : (!isSinglePacketMsg 0 iovs&&decide (reqType=.requestMsg)) =
      decide (¬iovs.flatten.length≤payloadSize ∧ reqType=.requestMsg) := by
    rw [isSinglePacketMsg_eq (Nat.zero_le _),Nat.zero_add,Bool.decide_and,decide_not]
  rw [prepareMsgLoop,hsmall,r2p2PrepareMsg_eq rfl]
  generalize hs : decide (¬iovs.flatten.length≤payloadSize ∧ reqType=.requestMsg)=small
  have hlong : small → payloadSize < iovs.flatten.length := by
    rintro rfl
    exact not_le.mp (of_decide_eq_true hs).1
  obtain ⟨st,hloop,hst,hfilling⟩ := @CopyState.copyLoop_spec _ _ iovs _
    (@CopyState.Sound.init (newHeader reqType policy reqId) small)
    (by simp) _ (Nat.le_refl _)
  rw [CopyState.remaining_of_copied rfl] at hloop hfilling
  have hpayloads : st.filling.payloads=fillBuffers small iovs := by
    rw [hfilling]
    rfl
  obtain ⟨gb,hgb⟩ : ∃ gb, st.gb=some gb := by
    cases hgb : st.gb with
    | none =>
      apply absurd hpayloads.symm
      simp [CopyState.filling,payloads,hgb,(hst.start hgb).1,fillBuffers_ne_nil small hne]
    | some gb => exact ⟨gb,rfl⟩
  have hflatten : st.filling.payloads.flatten=iovs.flatten := by rw [hpayloads,flatten_fillBuffers]
  have hpacket := @CopyState.finish_packet _ _ _ _ _ _ hst hgb (hst.last_room hgb hflatten hlong)
  have hlength : (st.finish gb).length=(fillBuffers small iovs).length := by
    rw [← hpayloads]
    simp [CopyState.finish,CopyState.filling,payloads,hgb]
  have hmapM : (st.finish gb).mapM Buffer.packet = some ((st.finish gb).map fun b => ⟨b.header,b.data⟩) := by
    apply mapM_eq_some_map
    intro b hb
    obtain ⟨i,hi⟩ := List.getElem?_of_mem hb
    exact (hpacket hi).1
  have hsame : ((st.finish gb).map fun b => Packet.mk b.header b.data) =
      (fillBuffers small iovs).mapIdx fun i payload =>
        ⟨packetHeader reqType policy reqId (fillBuffers small iovs).length i,payload⟩ := by
    apply ext_getElem?
    intro i
    rw [List.getElem?_map,List.getElem?_mapIdx]
    cases hb : (st.finish gb)[i]? with
    | none =>
      have hle := List.getElem?_eq_none_iff.mp hb
      rw [hlength] at hle
      simp [hle]
    | some b =>
      obtain ⟨-,hheader,hdata⟩ := hpacket hb
      have hn : st.chain.length+1=(fillBuffers small iovs).length := by
        rw [← hlength]
        simp [CopyState.finish]
      rw [hn] at hheader
      rw [hpayloads] at hdata
      simp [hdata,hheader]
  have hinit : CopyState.copyLoop (newHeader reqType policy reqId) small iovs
      (iovs.flatten.length+iovs.length) .init=some st := hloop
  simp only [bind_eq_bind,hinit,bind_some,hgb,hmapM,hsame]
end P4Benchmarks.R2p2
