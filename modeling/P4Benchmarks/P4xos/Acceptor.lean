import P4Benchmarks.P4xos.Header
/-!
# The acceptor switch

`acceptor.p4` with `arp.p4` and `icmp.p4`: the ingress control of one acceptor.  The exact-match
tables hold the entries of `config-acceptor.txt`; the entries of `transport_tbl` are a parameter.
-/
namespace P4Benchmarks.P4xos.Acceptor
open Lib

structure Registers where
  registerAcceptorID : Register 1 16
  (registerRound registerVRound : Register instanceCount 16)
  registerValue : Register instanceCount 256
  myMacAddress : Register 1 48
  myIpAddress : Register 1 32

structure ForwardEntry where
  port : BitVec 4
  macDst : BitVec 48
  ipDst : BitVec 32
  udpDst : BitVec 16
deriving DecidableEq

structure Config where
  acceptorID : BitVec 16
  macAddress : BitVec 48
  ipAddress : BitVec 32
  transport : BitVec 32 → Option ForwardEntry

def boot (cfg : Config) : Registers where
  registerAcceptorID := .filled cfg.acceptorID
  registerRound := .filled 0
  registerVRound := .filled 0
  registerValue := .filled 0
  myMacAddress := .filled cfg.macAddress
  myIpAddress := .filled cfg.ipAddress
variable (junk : Unspecified) (regs : Registers) (p : Paxos)
def handle1a : Registers × Paxos :=
  let p := { p with msgtype := paxos1B }
  let p := { p with vrnd := regs.registerVRound.read junk p.inst.toNat }
  let p := { p with paxosval := regs.registerValue.read junk p.inst.toNat }
  let p := { p with acptid := regs.registerAcceptorID.read junk 0 }
  ({ regs with registerRound := regs.registerRound.write p.inst.toNat p.rnd },p)

def handle2a : Registers × Paxos :=
  let p := { p with msgtype := paxos2B }
  let p := { p with acptid := regs.registerAcceptorID.read junk 0 }
  ({ regs with
      registerRound := regs.registerRound.write p.inst.toNat p.rnd
      registerVRound := regs.registerVRound.write p.inst.toNat p.rnd
      registerValue := regs.registerValue.write p.inst.toNat p.paxosval },p)

def acceptorTbl (std : StandardMetadata) : Registers × Paxos × StandardMetadata :=
  if p.msgtype=paxos1A then
    let (regs,p) := handle1a junk regs p
    (regs,p,std)
  else if p.msgtype=paxos2A then
    let (regs,p) := handle2a junk regs p
    (regs,p,std)
  else (regs,p,markToDrop std)

def forward (e : ForwardEntry) (hdr : Headers) (std : StandardMetadata) : Headers × StandardMetadata :=
  ({ hdr with
      ethernet := { hdr.ethernet with dstAddr := e.macDst }
      ipv4 := hdr.ipv4.map fun ip => { ip with dstAddr := e.ipDst }
      udp := hdr.udp.map fun _ => { dstPort := e.udpDst } },
    { std with egressSpec := e.port.zeroExtend 9 })
variable (cfg : Config) (dst : BitVec 32) (hdr : Headers)
def transportTbl (std : StandardMetadata) : Headers × StandardMetadata :=
  match cfg.transport dst with
  | some e => forward e hdr std
  | none => (hdr,markToDrop std)
variable (hdr : Headers) (arp : Arp) (std : StandardMetadata)
def handleArpRequest : Headers × StandardMetadata :=
  let mac := regs.myMacAddress.read junk 0
  let arp := { arp with op := 2, tha := arp.sha, tpa := arp.spa }
  let arp := { arp with sha := mac, spa := regs.myIpAddress.read junk 0 }
  ({ hdr with
      ethernet := { dstAddr := hdr.ethernet.srcAddr, srcAddr := mac }
      arp := some arp },
    { std with egressSpec := std.ingressPort })

def arpTbl : Headers × StandardMetadata :=
  if arp.op=1 then handleArpRequest junk regs hdr arp std
  else if arp.op=2 then (hdr,std)
  else (hdr,markToDrop std)
variable (ip : Ipv4) (icmp : Icmp)
def handleIcmpRequest : Headers :=
  { hdr with
    ethernet := { dstAddr := hdr.ethernet.srcAddr, srcAddr := regs.myMacAddress.read junk 0 }
    ipv4 := some { srcAddr := ip.dstAddr, dstAddr := ip.srcAddr }
    icmp := some { icmpType := 0, hdrChecksum := icmp.hdrChecksum+(8#16<<<8) } }

def icmpTbl (std : StandardMetadata) : Headers × StandardMetadata :=
  if icmp.icmpType=8 then (handleIcmpRequest junk regs hdr ip icmp,std)
  else if icmp.icmpType=0 then (hdr,std)
  else (hdr,markToDrop std)

def ingress (regs : Registers) (hdr : Headers) (std : StandardMetadata) : Registers × Headers × StandardMetadata :=
  match hdr.arp, hdr.ipv4, hdr.paxos, hdr.icmp with
  | some arp, _, _, _ => (regs,arpTbl junk regs hdr arp std)
  | none, some ip, some p, _ =>
    let round := regs.registerRound.read junk p.inst.toNat
    if p.rnd ≥ round then
      let (regs,p,std) := acceptorTbl junk regs p std
      (regs,transportTbl cfg ip.dstAddr { hdr with paxos := some p } std)
    else (regs,hdr,std)
  | none, some ip, none, some icmp => (regs,icmpTbl junk regs hdr ip icmp std)
  | none, some _, none, none => (regs,hdr,std)
  | none, none, _, _ => (regs,hdr,std)

@[simp] theorem transportTbl_paxos
    (std : StandardMetadata) : (transportTbl cfg dst hdr std).1.paxos=hdr.paxos := by
  unfold transportTbl
  split <;> rfl

@[simp] theorem arpTbl_paxos
    (std : StandardMetadata) : (arpTbl junk regs hdr arp std).1.paxos=hdr.paxos := by
  unfold arpTbl
  split_ifs <;> rfl

@[simp] theorem icmpTbl_paxos
    (std : StandardMetadata) : (icmpTbl junk regs hdr ip icmp std).1.paxos=hdr.paxos := by
  unfold icmpTbl
  split_ifs <;> rfl

/-- What one packet can do to an acceptor: nothing, a promise or a vote.  In the first case the
Paxos header leaves as it came, whatever the tables did to the rest of the packet. -/
theorem ingress_cases (regs : Registers) (hdr : Headers) (std : StandardMetadata) :
    let out := ingress junk cfg regs hdr std
    (out.1=regs ∧ out.2.1.paxos=hdr.paxos) ∨ ∃ p, hdr.paxos=some p ∧ regs.registerRound.read junk p.inst.toNat≤p.rnd ∧
        ((p.msgtype=paxos1A ∧ out.1=(handle1a junk regs p).1 ∧ out.2.1.paxos=some (handle1a junk regs p).2) ∨
          (p.msgtype=paxos2A ∧ out.1=(handle2a junk regs p).1 ∧ out.2.1.paxos=some (handle2a junk regs p).2)) := by
  unfold ingress
  split
  · exact .inl ⟨rfl,arpTbl_paxos junk _ _ _ _⟩
  · rename_i p _ _ hp
    dsimp only
    split_ifs with hround
    · unfold acceptorTbl
      split_ifs with h1a h2a
      · exact .inr ⟨p,hp,hround,.inl ⟨h1a,rfl,transportTbl_paxos _ _ _ _⟩⟩
      · exact .inr ⟨p,hp,hround,.inr ⟨h2a,rfl,transportTbl_paxos _ _ _ _⟩⟩
      · exact .inl ⟨rfl,(transportTbl_paxos _ _ _ _).trans hp.symm⟩
    · exact .inl ⟨rfl,rfl⟩
  · exact .inl ⟨rfl,icmpTbl_paxos junk _ _ _ _ _⟩
  · exact .inl ⟨rfl,rfl⟩
  · exact .inl ⟨rfl,rfl⟩
end P4Benchmarks.P4xos.Acceptor
