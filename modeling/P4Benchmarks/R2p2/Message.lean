import P4Benchmarks.Lib.Bytes
import P4Benchmarks.Lib.Parser
/-!
# R2P2 messages

A message is cut into packets by `r2p2_prepare_msg`; `gbuffer_read` and
`gbuffer_skip` go through the packets of a message as if their payloads were one piece.
-/
namespace P4Benchmarks.R2p2
open Lib List
structure Header where
  (magic headerSize typePolicy flags : Byte)
  (rid pOrder : BitVec 16)
deriving DecidableEq

def headerBytes : Nat := 8
def payloadSize : Nat := 1472-headerBytes
def minPayloadSize : Nat := 22-headerBytes
def fFlag : Byte := 0x80
def lFlag : Byte := 0x40
def magicByte : Byte := 0xCC

inductive MsgType where
  | requestMsg
  | responseMsg
  | feedbackMsg
  | ackMsg
  | dropMsg
  | raftReq
  | raftRep
  | raftMsg
deriving DecidableEq

def MsgType.code : MsgType → Byte
  | requestMsg => 0
  | responseMsg => 1
  | feedbackMsg => 2
  | ackMsg => 3
  | dropMsg => 4
  | raftReq => 5
  | raftRep => 6
  | raftMsg => 7

inductive Policy where
  | lbRoute
  | fixedRoute
  | replicatedRoute
  | replicatedRouteNoSe
deriving DecidableEq

def Policy.code : Policy → Byte
  | lbRoute => 0
  | fixedRoute => 1
  | replicatedRoute => 2
  | replicatedRouteNoSe => 3
variable (h : Header)
def Header.isFirst : Bool := h.flags&&&fFlag != 0
def Header.isLast : Bool := h.flags&&&lFlag != 0
def Header.getMsgType : Byte := (h.typePolicy&&&0xF0)>>>4
def Header.getPolicy : Byte := h.typePolicy&&&0xF

structure Packet where
  header : Header
  payload : List Byte
deriving DecidableEq

def Packet.size (p : Packet) : Nat := headerBytes+p.payload.length

structure HostTuple where
  ip : BitVec 32
  port : BitVec 16
deriving DecidableEq

structure R2p2Msg where
  sender : HostTuple
  reqId : BitVec 16
  packets : List Packet
deriving DecidableEq

def R2p2Msg.key (m : R2p2Msg) : HostTuple × BitVec 16 := (m.sender,m.reqId)
def R2p2Msg.totalLen (m : R2p2Msg) : Nat := (m.packets.map Packet.size).sum

/-- The buffers filled so far, the last one first, and the one that is being filled, its last byte
first, with the room that is left in it. -/
structure Filling where
  full : List (List Byte)
  cur : Option (List Byte × Nat)
variable (shouldSmallFirst : Bool)
def bufferRoom (i : Nat) : Nat := if i=0 ∧ shouldSmallFirst then minPayloadSize else payloadSize
namespace Filling
variable (shouldSmallFirst : Bool) (st : Filling)
def withRoom : Filling :=
  match st.cur with
  | none => ⟨st.full,some ([],bufferRoom shouldSmallFirst st.full.length)⟩
  | some (p,0) => ⟨p.reverse::st.full,some ([],bufferRoom shouldSmallFirst (st.full.length+1))⟩
  | some (_,_+1) => st

def put (b : Byte) : Filling :=
  let st := st.withRoom shouldSmallFirst
  { st with cur := st.cur.map fun (p,bufferleft) => (b::p,bufferleft-1) }

def putIov (iov : List Byte) : Filling := iov.foldl (put shouldSmallFirst) (st.withRoom shouldSmallFirst)
def payloads : List (List Byte) := st.full.reverse++(st.cur.map fun c => c.1.reverse).toList
end Filling
variable (iovs : List (List Byte))
def fillBuffers : List (List Byte) := (iovs.foldl (Filling.putIov shouldSmallFirst) ⟨[],none⟩).payloads

/-- The header of buffer `i` of `n`.  The first one has the number of buffers for its order. -/
def packetHeader (reqType : MsgType) (policy : Policy) (reqId : BitVec 16) (n i : Nat) : Header where
  magic := magicByte
  headerSize := .ofNat 8 headerBytes
  typePolicy := (reqType.code<<<4)|||(0x0F&&&policy.code)
  flags := (if i=0 then fFlag else 0)|||(if i+1=n then lFlag else 0)
  rid := reqId
  pOrder := .ofNat 16 (if i=0 then n else i)

def r2p2PrepareMsg (reqType : MsgType) (policy : Policy) (reqId : BitVec 16) : List Packet :=
  let singlePacketMsg := iovs.flatten.length≤payloadSize
  let shouldSmallFirst := decide (¬singlePacketMsg ∧ reqType=.requestMsg)
  let bufs := fillBuffers shouldSmallFirst iovs
  bufs.mapIdx fun i payload => ⟨packetHeader reqType policy reqId bufs.length i,payload⟩

theorem r2p2PrepareMsg_eq {iovs bufs : List (List Byte)} {reqType : MsgType} {policy : Policy} {reqId : BitVec 16}
    (h : fillBuffers (decide (¬iovs.flatten.length≤payloadSize ∧ reqType=.requestMsg)) iovs = bufs) :
    r2p2PrepareMsg iovs reqType policy reqId =
      bufs.mapIdx fun i payload => ⟨packetHeader reqType policy reqId bufs.length i,payload⟩ := by
  subst h
  rfl
namespace Filling
variable {shouldSmallFirst : Bool} (st : Filling)
theorem flatten_withRoom : (st.withRoom shouldSmallFirst).payloads.flatten=st.payloads.flatten := by
  obtain ⟨full,cur⟩ := st
  rcases cur with _ | ⟨p,_ | n⟩ <;> simp [withRoom,payloads]

theorem isSome_withRoom : (st.withRoom shouldSmallFirst).cur.isSome := by
  obtain ⟨full,cur⟩ := st
  rcases cur with _ | ⟨p,_ | n⟩ <;> rfl

theorem flatten_put (b : Byte) : (st.put shouldSmallFirst b).payloads.flatten=st.payloads.flatten++[b] := by
  have hsome : (st.withRoom shouldSmallFirst).cur.isSome := isSome_withRoom st
  have hflat : (st.withRoom shouldSmallFirst).payloads.flatten=st.payloads.flatten := flatten_withRoom st
  obtain ⟨⟨p,n⟩,hcur⟩ := Option.isSome_iff_exists.mp hsome
  rw [← hflat]
  simp [put,payloads,hcur]

theorem flatten_putIov (iov : List Byte) :
    (st.putIov shouldSmallFirst iov).payloads.flatten=st.payloads.flatten++iov := by
  have hfold (st : Filling) : (iov.foldl (put shouldSmallFirst) st).payloads.flatten = st.payloads.flatten++iov := by
    induction iov generalizing st with
    | nil => simp
    | cons b iov ih => rw [foldl_cons,ih,flatten_put,append_assoc,singleton_append]
  rw [putIov,hfold,flatten_withRoom]
end Filling
open Filling
theorem flatten_fillBuffers : (fillBuffers shouldSmallFirst iovs).flatten=iovs.flatten := by
  have hfold (st : Filling) : (iovs.foldl (putIov shouldSmallFirst) st).payloads.flatten =
        st.payloads.flatten++iovs.flatten := by
    induction iovs generalizing st with
    | nil => simp
    | cons iov iovs ih => rw [foldl_cons,ih,flatten_putIov,flatten_cons,append_assoc]
  exact hfold ⟨[],none⟩

theorem fillBuffers_ne_nil {iovs : List (List Byte)} (h : iovs≠[]) : fillBuffers shouldSmallFirst iovs≠[] := by
  have hput (st : Filling) (iov : List Byte) : (st.putIov shouldSmallFirst iov).cur.isSome := by
    have hfold (st : Filling) (hst : st.cur.isSome) : (iov.foldl (put shouldSmallFirst) st).cur.isSome := by
      induction iov generalizing st with
      | nil => exact hst
      | cons b iov ih =>
        apply ih
        rw [put,Option.isSome_map]
        exact isSome_withRoom st
    exact hfold _ (isSome_withRoom st)
  obtain ⟨init,last,rfl⟩ := (eq_nil_or_concat' iovs).resolve_left h
  obtain ⟨x,hx⟩ := Option.isSome_iff_exists.mp (hput (init.foldl (putIov shouldSmallFirst) ⟨[],none⟩) last)
  simp [fillBuffers,payloads,hx]
section PrepareMsg
variable (iovs : List (List Byte)) (reqType : MsgType) (policy : Policy) (reqId : BitVec 16)
theorem flatten_r2p2PrepareMsg :
    ((r2p2PrepareMsg iovs reqType policy reqId).map Packet.payload).flatten=iovs.flatten := by
  have hpayload (n : Nat) (bufs : List (List Byte)) :
      (bufs.mapIdx fun i payload => Packet.mk (packetHeader reqType policy reqId n i) payload).map
        Packet.payload=bufs := by
    apply ext_getElem
    · simp
    · simp
  rw [r2p2PrepareMsg,hpayload,flatten_fillBuffers]

theorem r2p2PrepareMsg_ne_nil (h : iovs≠[]) : r2p2PrepareMsg iovs reqType policy reqId≠[] := by
  intro hnil
  rw [r2p2PrepareMsg,mapIdx_eq_nil_iff] at hnil
  exact fillBuffers_ne_nil _ h hnil
end PrepareMsg
section PacketHeader
variable (reqType : MsgType) (policy : Policy) (reqId : BitVec 16) (n i : Nat)
theorem isFirst_packetHeader : (packetHeader reqType policy reqId n i).isFirst ↔ i=0 := by
  unfold Header.isFirst packetHeader
  split_ifs with hi hn hn <;> simp [hi,fFlag,lFlag]

theorem isLast_packetHeader : (packetHeader reqType policy reqId n i).isLast ↔ i+1=n := by
  unfold Header.isLast packetHeader
  split_ifs with hi hn hn <;> simp [hn,fFlag,lFlag]

theorem getMsgType_packetHeader : (packetHeader reqType policy reqId n i).getMsgType=reqType.code := by
  show ((reqType.code<<<4|||(0x0F&&&policy.code))&&&0xF0)>>>4=reqType.code
  cases reqType <;> cases policy <;> decide
end PacketHeader

theorem Filling.foldl_put {shouldSmallFirst : Bool} {full : List (List Byte)} {p iov : List Byte}
    {bufferleft : Nat} (h : iov.length≤bufferleft) :
    iov.foldl (put shouldSmallFirst) ⟨full,some (p,bufferleft)⟩ =
      ⟨full,some (iov.reverse++p,bufferleft-iov.length)⟩ := by
  induction iov generalizing p bufferleft with
  | nil => rfl
  | cons b iov ih =>
    obtain ⟨n,rfl⟩ : ∃ n, bufferleft=n+1 := ⟨bufferleft-1,by simp at h; omega⟩
    rw [length_cons] at h
    show iov.foldl (put shouldSmallFirst) ⟨full,some (b::p,n)⟩=_
    rw [ih (by omega),reverse_cons,append_assoc,length_cons]
    simp

theorem fillBuffers_two {shouldSmallFirst : Bool} {first second : List Byte}
    (hfirst : first.length=bufferRoom shouldSmallFirst 0) (hne : second≠[]) (hsecond : second.length≤payloadSize) :
    fillBuffers shouldSmallFirst [first++second]=[first,second] := by
  obtain ⟨b,rest,rfl⟩ := exists_cons_of_ne_nil hne
  rw [length_cons] at hsecond
  have hstart : (first++b::rest).foldl (put shouldSmallFirst) ⟨[],some ([],bufferRoom shouldSmallFirst 0)⟩ =
      rest.foldl (put shouldSmallFirst) ⟨[first],some ([b],payloadSize-1)⟩ := by
    rw [foldl_append,foldl_put (Nat.le_of_eq hfirst),hfirst,Nat.sub_self,append_nil,foldl_cons]
    simp [put,withRoom,bufferRoom]
  have hfill : fillBuffers shouldSmallFirst [first++b::rest] = ((first++b::rest).foldl (put shouldSmallFirst)
        ⟨[],some ([],bufferRoom shouldSmallFirst 0)⟩).payloads := rfl
  rw [hfill,hstart,foldl_put (by omega)]
  simp [payloads]

/-- `struct gbuffer_reader`: what is left in the current buffer, and the buffers after it. -/
structure Reader where
  left : List Byte
  rest : List Packet

def gbufferReaderInit : List Packet → Reader
  | [] => ⟨[],[]⟩
  | p::ps => ⟨p.payload,ps⟩

def gbufferRead (size : Nat) (left : List Byte) : List Packet → List Byte × Reader
  | [] => (left.take size,⟨left.drop size,[]⟩)
  | p::ps =>
    if size≤left.length then (left.take size,⟨left.drop size,p::ps⟩)
    else
      let (bytes,reader) := gbufferRead (size-left.length) p.payload ps
      (left++bytes,reader)

@[local simp] def Reader.view (r : Reader) : List Byte := r.left++(r.rest.map Packet.payload).flatten

abbrev Reads {α : Type} (p : Parser Reader α) (bytes : List Byte) (a : α) : Prop := Parses Reader.view p bytes a

theorem view_gbufferReaderInit (ps : List Packet) : (gbufferReaderInit ps).view=(ps.map Packet.payload).flatten := by
  cases ps <;> simp [gbufferReaderInit]
variable (size : Nat)
theorem gbufferRead_spec (left : List Byte) (rest : List Packet) :
    (gbufferRead size left rest).1=(Reader.mk left rest).view.take size ∧
      (gbufferRead size left rest).2.view=(Reader.mk left rest).view.drop size := by
  induction rest generalizing size left with
  | nil => simp [gbufferRead]
  | cons p ps ih =>
    rw [gbufferRead]
    split_ifs with hsize
    · simp [take_append_of_le_length hsize,drop_append_of_le_length hsize]
    · obtain ⟨hread,hview⟩ := ih (size-left.length) p.payload
      simp only [Reader.view] at hread hview ⊢
      have hle : left.length ≤ size := by omega
      have htake (ys : List Byte) : (left++ys).take size=left++ys.take (size-left.length) := by
        rw [take_append,take_of_length_le hle]
      have hdrop (ys : List Byte) : (left++ys).drop size=ys.drop (size-left.length) := by
        rw [drop_append,drop_of_length_le hle,nil_append]
      rw [hread,hview,map_cons,flatten_cons,htake,hdrop]
      exact ⟨rfl,rfl⟩

def readUpTo : Parser Reader (List Byte) := fun r =>
  some (gbufferRead size r.left r.rest)

def readBytes : Parser Reader (List Byte) := do
  let bytes ← readUpTo size
  if bytes.length=size then pure bytes else failure

theorem readUpTo_parses (bytes : List Byte) : Reads (readUpTo bytes.length) bytes bytes := by
  intro r rest h
  obtain ⟨hread,hview⟩ := gbufferRead_spec bytes.length r.left r.rest
  refine ⟨(gbufferRead bytes.length r.left r.rest).2,?_,?_⟩
  · rw [show (Reader.mk r.left r.rest).view=bytes++rest from h,take_left] at hread
    exact congrArg some (Prod.ext hread rfl)
  · rw [hview,show (Reader.mk r.left r.rest).view=bytes++rest from h,drop_left]

theorem readBytes_parses {bytes : List Byte} {size : Nat} (h : bytes.length=size) :
    Reads (readBytes size) bytes bytes := by
  subst h
  have hcheck : Reads (if bytes.length=bytes.length then pure bytes else failure) [] bytes := by
    rw [if_pos rfl]
    exact Parses.pure bytes
  have hbind := (readUpTo_parses bytes).bind (q := fun bs => if bs.length=bytes.length then pure bs else failure) hcheck
  rwa [append_nil] at hbind

def readNet : Parser Reader Nat := ofBe <$> readBytes size
def readHost : Parser Reader Nat := ofLe <$> readBytes size

theorem readNet_parses (size v : Nat) : Reads (readNet size) (beBytes size v) (v%256^size) := by
  have h := (readBytes_parses (length_beBytes size v)).map ofBe
  rwa [ofBe_beBytes] at h

theorem readHost_parses (size v : Nat) : Reads (readHost size) (leBytes size v) (v%256^size) := by
  have h := (readBytes_parses (length_leBytes size v)).map ofLe
  rwa [ofLe_leBytes] at h

def gbufferSkip (size : Nat) (left : List Byte) : List Packet → Nat × Reader
  | [] => (min size left.length,⟨left.drop size,[]⟩)
  | p::ps =>
    if size≤left.length then (size,⟨left.drop size,p::ps⟩)
    else
      let (skipped,reader) := gbufferSkip (size-left.length) p.payload ps
      (left.length+skipped,reader)

inductive ReaderCall where
  | read (size : Nat)
  | skip (size : Nat)

def ReaderCall.amount : ReaderCall → Nat
  | .read size | .skip size => size

def ReaderCall.exec (r : Reader) : ReaderCall → (List Byte ⊕ Nat) × Reader
  | .read size => (gbufferRead size r.left r.rest).map .inl id
  | .skip size => (gbufferSkip size r.left r.rest).map .inr id

def ReaderCall.segment (bytes : List Byte) : ReaderCall → List Byte ⊕ Nat
  | .read size => .inl (bytes.take size)
  | .skip size => .inr size

def Reader.run (r : Reader) : List ReaderCall → List (List Byte ⊕ Nat)
  | [] => []
  | c::cs => (c.exec r).1::(c.exec r).2.run cs

def segments (bytes : List Byte) : List ReaderCall → List (List Byte ⊕ Nat)
  | [] => []
  | c::cs => c.segment bytes::segments (bytes.drop c.amount) cs

theorem gbufferSkip_eq (size : Nat) (left : List Byte) (rest : List Packet) :
    gbufferSkip size left rest=(min size (Reader.mk left rest).view.length,(gbufferRead size left rest).2) := by
  induction rest generalizing size left with
  | nil => simp [gbufferSkip,gbufferRead]
  | cons p ps ih =>
    rw [gbufferSkip,gbufferRead,ih]
    split_ifs with hsize
    · simp [Nat.le_add_right_of_le hsize]
    · have hmin (n : Nat) : left.length+min (size-left.length) n=min size (left.length+n) := by omega
      simp [hmin]

theorem exec_spec (r : Reader) (c : ReaderCall) :
    (c.exec r).2.view=r.view.drop c.amount ∧ (c.amount ≤ r.view.length → (c.exec r).1=c.segment r.view) := by
  cases c with
  | read size =>
    obtain ⟨hread,hview⟩ := gbufferRead_spec size r.left r.rest
    exact ⟨hview,fun _ => congrArg Sum.inl hread⟩
  | skip size =>
    rw [ReaderCall.exec,gbufferSkip_eq]
    exact ⟨(gbufferRead_spec size r.left r.rest).2,fun h => congrArg Sum.inr (Nat.min_eq_left h)⟩

theorem run_eq_segments {r : Reader} {cs : List ReaderCall} (h : (cs.map ReaderCall.amount).sum ≤ r.view.length) :
    r.run cs=segments r.view cs := by
  induction cs generalizing r with
  | nil => rfl
  | cons c cs ih =>
    obtain ⟨hview,hfirst⟩ := exec_spec r c
    rw [map_cons,sum_cons] at h
    rw [Reader.run,segments,hfirst (by omega),ih (by rw [hview,length_drop]; omega),hview]

/-- Reads and skips go through the payloads of a chain, empty ones among them, as if they were one piece. -/
theorem reader_segments (ps : List Packet) {cs : List ReaderCall}
    (h : (cs.map ReaderCall.amount).sum≤(ps.map Packet.payload).flatten.length) :
    (gbufferReaderInit ps).run cs=segments (ps.map Packet.payload).flatten cs := by
  rw [← view_gbufferReaderInit] at h ⊢
  exact run_eq_segments h

private def chain : List Packet := [[1,2],[],[3,4,5]].map (Packet.mk ⟨0,0,0,0,0,0⟩)

theorem reader_segments_chain : (gbufferReaderInit chain).run [.read 1,.skip 2,.read 2]=[.inl [1],.inr 2,.inl [4,5]] :=
  reader_segments chain (by decide)
end P4Benchmarks.R2p2
