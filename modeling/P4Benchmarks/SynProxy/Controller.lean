import P4Benchmarks.SynProxy.Switch
/-!
# The controller of the SYN proxy

The controller reads the digests of the switch one by one and fills the `connections` table. The
switch goes on forwarding meanwhile, so packets come between any two of its calls.
-/
namespace P4Benchmarks.SynProxy
open List
structure TableAdd where
  (hash difference : BitVec 32)
  deriving DecidableEq

/-- The calls that `recv_msg_digest` makes for one digest. A digest of type 1 would fill a
whitelist, which the switch does not have. -/
def recvMsgDigest (d : Digest) : List TableAdd := if d.type=2 then [⟨d.arg1,d.arg2⟩,⟨d.arg3,d.arg4⟩] else []
def connectionsSize : Nat := 4096

/-- The switch refuses an entry for a key it has and an entry that does not fit. -/
def Connections.add (connections : Connections) (a : TableAdd) : Connections :=
  if (connections.lookup a.hash).isSome ∨ connectionsSize ≤ connections.length then connections
  else connections++[(a.hash,a.difference)]

/-- The table, the digests on their way to the controller, and the calls that the controller has
still to make for the digest it received last. -/
structure State where
  connections : Connections
  digests : List Digest
  calls : List TableAdd
  deriving DecidableEq

def State.init : State := ⟨[],[],[]⟩

inductive Event where
  | packet (f : Frame)
  | receive
  | call

def State.receive (s : State) : State :=
  match s.calls, s.digests with
  | [], d::digests => { s with digests := digests, calls := recvMsgDigest d }
  | _, _ => s

def State.call (s : State) : State :=
  match s.calls with
  | [] => s
  | a::calls => { s with connections := s.connections.add a, calls := calls }
section
variable (H : HashUnits) (ipv4Lpm : Ipv4Lpm) (s : State)
def State.ingress (f : Frame) : IngressResult := myIngress H ipv4Lpm s.connections (myParser f)

def State.step : Event → State
  | .packet f => { s with digests := s.digests++(s.ingress H ipv4Lpm f).digests }
  | .receive => s.receive
  | .call => s.call

def State.run (es : List Event) : State := es.foldl (State.step H ipv4Lpm) s
end

def frames (es : List Event) : List Frame :=
  es.filterMap fun e => match e with
    | .packet f => some f
    | _ => none



@[simp] theorem frames_append (es es' : List Event) : frames (es++es')=frames es++frames es' := filterMap_append
@[simp] theorem frames_packet_cons (f : Frame) (es : List Event) : frames (.packet f::es)=f::frames es := rfl
@[simp] theorem frames_map_packet (fs : List Frame) : frames (fs.map .packet)=fs := by
  induction fs with
  | nil => rfl
  | cons f fs ih => rw [map_cons,frames_packet_cons,ih]
variable (H : HashUnits) (ipv4Lpm : Ipv4Lpm)
theorem State.run_append (s : State) (es es' : List Event) :
    s.run H ipv4Lpm (es++es')=(s.run H ipv4Lpm es).run H ipv4Lpm es' :=
  foldl_append

def Sourced (H : HashUnits) (fs : List Frame) (key : BitVec 32) : Prop :=
  ∃ f ∈ fs, ∃ q, myParser f=.tcp q ∧ q.IsSynAck ∧
    (key=H.connectionHash q.fiveTuple ∨ key=H.connectionHash q.fiveTuple.reverse)
variable {fs : List Frame} {key : BitVec 32}
theorem Sourced.append {H : HashUnits} (h : Sourced H fs key) (fs' : List Frame) : Sourced H (fs++fs') key := by
  obtain ⟨f,hf,hq⟩ := h
  exact ⟨f,mem_append_left _ hf,hq⟩

structure Accounted (H : HashUnits) (fs : List Frame) (s : State) : Prop where
  connections : ∀ entry ∈ s.connections, Sourced H fs entry.1
  digests : ∀ d ∈ s.digests, ∀ a ∈ recvMsgDigest d, Sourced H fs a.hash
  calls : ∀ a ∈ s.calls, Sourced H fs a.hash

theorem accounted_init : Accounted H [] .init :=
  ⟨fun _ h => absurd h not_mem_nil,fun _ h => absurd h not_mem_nil, fun _ h => absurd h not_mem_nil⟩
variable {s : State}
theorem Accounted.append {H : HashUnits} (h : Accounted H fs s) (fs' : List Frame) : Accounted H (fs++fs') s where
  connections entry hentry := (h.connections entry hentry).append fs'
  digests d hd a ha := (h.digests d hd a ha).append fs'
  calls a ha := (h.calls a ha).append fs'

theorem sourced_of_mem_ingress (s : State) (f : Frame) {d : Digest} (hd : d ∈ (s.ingress H ipv4Lpm f).digests)
    {a : TableAdd} (ha : a ∈ recvMsgDigest d) : Sourced H [f] a.hash := by
  unfold State.ingress at hd
  cases hparse : myParser f with
  | ethernet eth | ipv4 eth ip =>
    rw [hparse] at hd
    cases hd
  | tcp seg =>
    rw [hparse,myIngress_tcp_digests] at hd
    obtain htype | ⟨hsynAck,htype,harg1,harg3⟩ := applyTcp_digests H s.connections seg d hd
    · rw [recvMsgDigest,if_neg (by rw [htype]; decide)] at ha
      cases ha
    · refine ⟨f,mem_singleton_self f,seg,hparse,hsynAck,?_⟩
      rw [recvMsgDigest,if_pos htype] at ha
      simp only [mem_cons,not_mem_nil,or_false] at ha
      obtain rfl | rfl := ha
      · exact .inl harg1
      · exact .inr harg3
variable {connections : Connections}
theorem Connections.mem_add {a : TableAdd} {entry : BitVec 32 × BitVec 32} (h : entry ∈ connections.add a) :
    entry ∈ connections ∨ entry=(a.hash,a.difference) := by
  unfold Connections.add at h
  split_ifs at h
  · exact .inl h
  · rw [mem_append,mem_singleton] at h
    exact h
section
variable {H : HashUnits} (h : Accounted H fs s)
include h
theorem Accounted.receive : Accounted H fs s.receive := by
  unfold State.receive
  split
  · next d digests _ hdigests =>
    have hmem (d' : Digest) (hd' : d' ∈ d::digests) := h.digests d' (hdigests ▸ hd')
    exact ⟨h.connections,fun d' hd' => hmem d' (mem_cons_of_mem d hd'), hmem d mem_cons_self⟩
  · exact h

theorem Accounted.call : Accounted H fs s.call := by
  unfold State.call
  split
  · exact h
  · next a calls hcalls =>
    have hmem (a' : TableAdd) (ha' : a' ∈ a::calls) := h.calls a' (hcalls ▸ ha')
    refine ⟨fun entry hentry => ?_,h.digests,fun a' ha' => hmem a' (mem_cons_of_mem a ha')⟩
    obtain hold | rfl := Connections.mem_add hentry
    · exact h.connections entry hold
    · exact hmem a mem_cons_self

theorem Accounted.step {ipv4Lpm : Ipv4Lpm} (e : Event) : Accounted H (fs++frames [e]) (s.step H ipv4Lpm e) := by
  cases e with
  | packet f =>
    refine ⟨(h.append [f]).connections,fun d hd a ha => ?_,(h.append [f]).calls⟩
    obtain hd | hd := mem_append.mp hd
    · exact (h.append [f]).digests d hd a ha
    · obtain ⟨g,hg,hq⟩ := sourced_of_mem_ingress H ipv4Lpm s f hd ha
      exact ⟨g,mem_append_right fs hg,hq⟩
  | receive => exact h.receive.append []
  | call => exact h.call.append []
end

theorem accounted_run (es : List Event) : Accounted H (frames es) (State.init.run H ipv4Lpm es) := by
  induction es using List.reverseRecOn with
  | nil => exact accounted_init H
  | append_singleton es e ih =>
    rw [frames_append,State.run_append]
    exact ih.step e

def drain : Nat → List Event
  | 0 => []
  | n+1 => .receive :: .call :: .call::drain n

@[simp] theorem frames_drain (n : Nat) : frames (drain n)=[] := by
  induction n with
  | zero => rfl
  | succ n ih => exact ih

theorem State.call_call_receive (connections : Connections) (d : Digest) (digests : List Digest) :
    (State.mk connections (d::digests) []).receive.call.call =
      ⟨(recvMsgDigest d).foldl Connections.add connections,digests,[]⟩ := by
  change (State.mk connections digests (recvMsgDigest d)).call.call=_
  unfold recvMsgDigest
  split_ifs <;> rfl

theorem State.run_drain (connections : Connections) (digests : List Digest) :
    State.run H ipv4Lpm ⟨connections,digests,[]⟩ (drain digests.length) =
      ⟨(digests.flatMap recvMsgDigest).foldl Connections.add connections,[],[]⟩ := by
  induction digests generalizing connections with
  | nil => rfl
  | cons d digests ih =>
    rw [flatMap_cons,foldl_append,← ih,← call_call_receive]
    rfl

theorem State.run_map_packet (fs : List Frame) : State.init.run H ipv4Lpm (fs.map .packet) =
      ⟨[],fs.flatMap fun f => (State.init.ingress H ipv4Lpm f).digests,[]⟩ := by
  induction fs using List.reverseRecOn with
  | nil => rfl
  | append_singleton fs f ih =>
    rw [map_append,State.run_append,ih,flatMap_append,flatMap_singleton]
    rfl

theorem Connections.length_add_le (connections : Connections) (a : TableAdd) :
    (connections.add a).length ≤ connections.length+1 := by
  unfold Connections.add
  split_ifs
  · exact Nat.le_succ _
  · simp

theorem Connections.lookup_add_of_eq_some {d : BitVec 32} (h : connections.lookup key=some d) (a : TableAdd) :
    (connections.add a).lookup key=some d := by
  unfold Connections.add
  split_ifs
  · exact h
  · simp [lookup_append,h]

theorem Connections.lookup_add_self (a : TableAdd) (h : connections.length < connectionsSize) :
    ((connections.add a).lookup a.hash).isSome := by
  unfold Connections.add
  split_ifs with hfull
  · exact hfull.resolve_right (Nat.not_le.mpr h)
  · simp [lookup_append]

theorem Connections.lookup_foldl_add_of_eq_some {d : BitVec 32} (h : connections.lookup key=some d)
    (as : List TableAdd) : (as.foldl Connections.add connections).lookup key=some d := by
  induction as generalizing connections with
  | nil => exact h
  | cons a as ih => exact ih (lookup_add_of_eq_some h a)

theorem Connections.lookup_foldl_add (connections : Connections) (as : List TableAdd)
    (hfits : connections.length+as.length ≤ connectionsSize) :
    ∀ a ∈ as, ((as.foldl Connections.add connections).lookup a.hash).isSome := by
  induction as generalizing connections with
  | nil => exact fun _ ha => absurd ha not_mem_nil
  | cons b as ih =>
    rw [length_cons] at hfits
    have hlen := Connections.length_add_le connections b
    intro a ha
    obtain rfl | ha := mem_cons.mp ha
    · have hself : ((connections.add a).lookup a.hash).isSome := lookup_add_self a (by omega)
      obtain ⟨d,hd⟩ := Option.isSome_iff_exists.mp hself
      rw [foldl_cons,lookup_foldl_add_of_eq_some hd,Option.isSome_some]
    · exact ih _ (by omega) a ha
end P4Benchmarks.SynProxy
