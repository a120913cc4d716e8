import P4Benchmarks.P4rtOvs.UbpfCfgSound
/-! # Programs that pass come to an end -/
namespace P4Benchmarks.P4rtOvs
open Ebpf Lib List BitVec Option
section
variable {σ : Type} {vm : UbpfVm σ}
def InstOk (vm : UbpfVm σ) (i : Nat) (inst : EbpfInst) : Prop :=
  inst.opcode=0 ∨ ∃ opcode, decode inst.opcode=some opcode ∧ checkOpcode vm i inst opcode=none
variable {i : Nat}
theorem opcode_of_checkOpcode_lddw {inst second : EbpfInst} (h : checkOpcode vm i inst .lddw=none)
    (hsecond : vm.insts[i+1]?=some second) : second.opcode=0 := by
  simpa [checkOpcode,hsecond] using h
variable {inst : EbpfInst}
theorem validateFrom_cons {rest : List EbpfInst} (h : validateFrom vm i (inst::rest)=.ok ()) :
    ∃ opcode, decode inst.opcode=some opcode ∧ checkOpcode vm i inst opcode=none ∧
      ((opcode=.lddw ∧ ∃ second rest', rest=second::rest' ∧
        validateFrom vm (i+2) rest'=.ok ()) ∨ validateFrom vm (i+1) rest=.ok ()) := by
  rw [validateFrom] at h
  cases hdecode : decode inst.opcode with
  | none => simp [hdecode] at h
  | some opcode =>
    cases hcheck : checkOpcode vm i inst opcode with
    | some fault => simp [hdecode,hcheck] at h
    | none =>
      refine ⟨opcode,rfl,hcheck,?_⟩
      simp only [hdecode,hcheck] at h
      split at h
      · split at h
        · cases h
        · exact .inl ⟨rfl,_,_,rfl,h⟩
      · split at h
        · cases h
        · exact .inr h

theorem validateFrom_ok {l : List EbpfInst} (hvalid : validateFrom vm i l=.ok ()) (hl : ∀ j, l[j]?=vm.insts[i+j]?)
    {j : Nat} (hj : l[j]?=some inst) : InstOk vm (i+j) inst := by
  induction hlen : l.length using Nat.strong_induction_on generalizing i l j with
  | _ n ih =>
    cases l with
    | nil => simp at hj
    | cons first rest =>
      have hskip : ∀ j, rest[j]?=vm.insts[i+1+j]? := by
        intro j
        have hj := hl (j+1)
        rwa [List.getElem?_cons_succ,show i+(j+1)=i+1+j by omega] at hj
      obtain ⟨opcode,hdecode,hcheck,hnext⟩ := validateFrom_cons hvalid
      cases j with
      | zero =>
        obtain rfl : first=inst := by simpa using hj
        exact .inr ⟨opcode,hdecode,hcheck⟩
      | succ j =>
        rcases hnext with ⟨rfl,second,rest,rfl,hrest⟩ | hrest
        · cases j with
          | zero =>
            obtain rfl : second=inst := by simpa using hj
            exact .inl (opcode_of_checkOpcode_lddw hcheck (hskip 0).symm)
          | succ j =>
            have hskip' : ∀ j, rest[j]?=vm.insts[i+2+j]? := by
              intro j
              have hj := hskip (j+1)
              rwa [List.getElem?_cons_succ,show i+1+(j+1)=i+2+j by omega] at hj
            have hok := ih rest.length (by rw [← hlen]; exact Nat.lt_succ_of_lt (Nat.lt_succ_self _)) hrest hskip' hj rfl
            rwa [show i+(j+1+1)=i+2+j by omega]
        · have hok := ih rest.length (by simp [← hlen]) hrest hskip hj rfl
          rwa [show i+(j+1)=i+1+j by omega]

theorem validateInstructions_ok (hvalid : validateInstructions vm=.ok ())
    (h : vm.insts[i]?=some inst) : InstOk vm i inst := by
  simpa using validateFrom_ok hvalid (by simp) h

theorem classOf_code (o : Opcode) :
    classOf o.code=clsJmp ↔ o=.ja ∨ o=.call ∨ o=.exit ∨ ∃ op source, o=.jump op source := by
  cases o with
  | alu w op s => cases w <;> cases op <;> cases s <;> simp [Opcode.code] <;> decide
  | neg w => cases w <;> simp [Opcode.code] <;> decide
  | ldabs z | ldind z | ldx z | st z | stx z => cases z <;> simp [Opcode.code] <;> decide
  | jump op s => cases op <;> cases s <;> simp [Opcode.code] <;> decide
  | le | be | lddw | ja | call | exit =>
    simp [Opcode.code]
    decide

def opcodeSuccs (v : Nat) (inst : EbpfInst) : Opcode → List Nat
  | .ja => [branchTarget v inst]
  | .exit => []
  | .jump _ _ => [v+1,branchTarget v inst]
  | _ => [v+1]

theorem cfgSuccs_of_decode {insts : List EbpfInst} {v : Nat} {o : Opcode} (hinst : insts[v]?=some inst)
    (hdecode : decode inst.opcode=some o) : cfgSuccs insts v=opcodeSuccs v inst o := by
  rw [cfgSuccs_eq hinst,cfgEdges,← code_of_decode hdecode]
  have hclass := classOf_code o
  cases o with
  | jump op s => cases op <;> cases s <;> rfl
  | ja | call | exit => rfl
  | alu w op s | neg w | le | be | ldabs z | ldind z | ldx z | st z | stx z | lddw =>
    rw [if_neg (by simp [hclass])]
    rfl

theorem cfgSuccs_of_zero {insts : List EbpfInst} {v : Nat}
    (hinst : insts[v]?=some inst) (hzero : inst.opcode=0) : cfgSuccs insts v=[v+1] := by
  rw [cfgSuccs_eq hinst,cfgEdges,hzero]
  rfl

theorem jump_targets {v n : Nat} (hv : v<n) (hn : n < maxInsts)
    (hlow : 0≤jumpTarget v inst) (hhigh : jumpTarget v inst<n) :
    branchTarget v inst=(jumpTarget v inst).toNat ∧
      ∀ pc : BitVec 16, pc.toNat=v+1 → (pc+inst.offset).toNat=(jumpTarget v inst).toNat := by
  have hsign : (inst.offset.signExtend 32).toInt=inst.offset.toInt := toInt_signExtend_of_le (by decide)
  rw [toInt_eq_toNat_cond,toInt_eq_toNat_cond] at hsign
  simp only [jumpTarget,toInt_eq_toNat_cond] at hlow hhigh ⊢
  simp only [maxInsts] at hn
  refine ⟨?_,fun pc hpc => ?_⟩
  · rw [branchTarget,toNat_add,toNat_ofNat]
    split_ifs at hsign hlow hhigh ⊢ <;> omega
  · rw [toNat_add,hpc]
    split_ifs at hlow hhigh ⊢ <;> omega

/-- The divisor of a 32-bit division passes the check, which looks at 64 bits, and is zero. -/
def DividesByLowZero (vm : UbpfVm σ) (m : Machine σ) : Prop :=
  ∃ inst op, vm.insts[m.pc.toNat]?=some inst ∧ (op=.div ∨ op=.mod) ∧
    decode inst.opcode=some (.alu .narrow op .reg) ∧ m.reg inst.src≠0 ∧
    u32 (m.reg inst.src)=0

inductive StepEffect (vm : UbpfVm σ) (m : Machine σ) : ExecResult σ → Prop
  | returned (r : BitVec 64) (h : ¬DividesByLowZero vm m) : StepEffect vm m (.returned r)
  | trapped (h : DividesByLowZero vm m) : StepEffect vm m .trapped
  | running {m' : Machine σ} (h : ¬DividesByLowZero vm m)
      (hpc : m'.pc.toNat ∈ cfgSuccs vm.insts m.pc.toNat ∨
        ∃ w ∈ cfgSuccs vm.insts m.pc.toNat, m'.pc.toNat ∈ cfgSuccs vm.insts w) :
    StepEffect vm m (.running m')

theorem u32_signExtend (imm : BitVec 32) : u32 (imm.signExtend 64)=imm := by
  apply eq_of_getLsbD_eq
  intro i hi
  simp [u32,getLsbD_signExtend,hi]
  omega

theorem divide_eq_trap {source : Source} {b quotient : BitVec 64} {divisorZero : Bool} :
    divide source b divisorZero quotient=.trap ↔ ¬(source=.reg ∧ b=0) ∧ divisorZero := by
  rw [divide]
  split_ifs with hcheck hzero <;> simp_all
variable {width : Width}
theorem aluValue_eq_trap {longShift : Width → AluOp → BitVec 64 → BitVec 64 → BitVec 64}
    {op : AluOp} {source : Source} {a b : BitVec 64} :
    aluValue longShift width op source a b=.trap ↔ (op=.div ∨ op=.mod) ∧ ¬(source=.reg ∧ b=0) ∧
        (b=0 ∨ width=.narrow ∧ u32 b=0) := by
  cases width <;> cases op <;> simp [aluValue,divide_eq_trap]
  all_goals
    intro _ hb
    simp [hb,u32]

theorem aluValue_imm_ne_trap (longShift : Width → AluOp → BitVec 64 → BitVec 64 → BitVec 64) {op : AluOp}
    {a : BitVec 64} (hcheck : checkOpcode vm i inst (.alu width op .imm)=none) :
    aluValue longShift width op .imm a (inst.imm.signExtend 64)≠.trap := by
  rw [ne_eq,aluValue_eq_trap]
  rintro ⟨hop,-,hzero⟩
  have himm : inst.imm≠0 := by rcases hop with rfl | rfl <;> simpa [checkOpcode] using hcheck
  have hlow : u32 (inst.imm.signExtend 64)=0 := by
    rcases hzero with hzero | ⟨-,hzero⟩
    · rw [hzero]
      rfl
    · exact hzero
  rw [u32_signExtend] at hlow
  exact himm hlow

theorem toNat_pc_add_one {pc : BitVec 16} {n : Nat} (hn : n < maxInsts) (hpc : pc.toNat<n) :
    (pc+1).toNat=pc.toNat+1 := by
  simp only [maxInsts] at hn
  rw [toNat_add,show (1 : BitVec 16).toNat=1 from rfl]
  omega

theorem jumpTarget_of_check {o : Opcode} (ho : o=.ja ∨ ∃ op source, o=.jump op source)
    (hcheck : checkOpcode vm i inst o=none) : 0≤jumpTarget i inst ∧ jumpTarget i inst<vm.insts.length := by
  have hout : ¬(jumpTarget i inst<0 ∨ vm.insts.length≤jumpTarget i inst) := by
    intro hout
    rcases ho with rfl | ⟨op,source,rfl⟩ <;> simp [checkOpcode,hout] at hcheck
  omega
variable {m : Machine σ}
theorem not_dividesByLowZero {o : Opcode} (hinst : vm.insts[m.pc.toNat]?=some inst)
    (hdecode : decode inst.opcode=some o) (ho : ∀ op, o≠.alu .narrow op .reg) : ¬DividesByLowZero vm m := by
  rintro ⟨inst',op,hinst',-,hdecode',-⟩
  obtain rfl : inst'=inst := some.inj (hinst'.symm.trans hinst)
  exact ho op (some.inj (hdecode.symm.trans hdecode'))

theorem dividesByLowZero_iff {op : AluOp} (hinst : vm.insts[m.pc.toNat]?=some inst)
    (hdecode : decode inst.opcode=some (.alu width op .reg))
    (longShift : Width → AluOp → BitVec 64 → BitVec 64 → BitVec 64) (a : BitVec 64) :
    DividesByLowZero vm m ↔ aluValue longShift width op .reg a (m.reg inst.src)=.trap := by
  rw [aluValue_eq_trap]
  constructor
  · rintro ⟨inst',op',hinst',hop,hdecode',hne,hlow⟩
    obtain rfl : inst'=inst := some.inj (hinst'.symm.trans hinst)
    cases some.inj (hdecode.symm.trans hdecode')
    exact ⟨hop,fun h => hne h.2,.inr ⟨rfl,hlow⟩⟩
  · rintro ⟨hop,hne,hzero⟩
    have hne' : m.reg inst.src≠0 := fun h => hne ⟨rfl,h⟩
    rcases hzero with hzero | ⟨rfl,hlow⟩
    · exact absurd hzero hne'
    · exact ⟨inst,op,hinst,hop,hdecode,hne',hlow⟩

theorem execStep_effect (hvalid : validateInstructions vm=.ok ()) (hsize : vm.insts.length < maxInsts) (host : Host)
    (hpc : m.pc.toNat<vm.insts.length) : StepEffect vm m (execStep vm host m) := by
  have hnext := toNat_pc_add_one hsize hpc
  have hmem (h : cfgSuccs vm.insts m.pc.toNat=[m.pc.toNat+1]) : (m.pc+1).toNat ∈ cfgSuccs vm.insts m.pc.toNat := by
    rw [h,hnext]
    exact mem_singleton_self _
  have hinst : vm.insts[m.pc.toNat]?=some vm.insts[m.pc.toNat] := List.getElem?_eq_getElem hpc
  generalize vm.insts[m.pc.toNat]=inst at hinst
  rcases validateInstructions_ok hvalid hinst with hzero | ⟨o,hdecode,hcheck⟩
  · have hdecode : decode inst.opcode=none := by rw [hzero,decode_zero]
    have hdiv : ¬DividesByLowZero vm m := by
      rintro ⟨inst',op,hinst',-,hdecode',-⟩
      obtain rfl : inst'=inst := some.inj (hinst'.symm.trans hinst)
      simp [hdecode] at hdecode'
    simp only [execStep,hinst,hdecode]
    exact .running hdiv (.inl (hmem (cfgSuccs_of_zero hinst hzero)))
  have hsuccs := cfgSuccs_of_decode hinst hdecode
  have hjump (ho : o=.ja ∨ ∃ op source, o=.jump op source) :
      (m.pc+1+inst.offset).toNat=branchTarget m.pc.toNat inst := by
    have htarget := jumpTarget_of_check ho hcheck
    have htargets := jump_targets hpc hsize htarget.1 htarget.2
    rw [htargets.2 (m.pc+1) hnext,htargets.1]
  simp only [execStep,hinst,hdecode]
  cases o with
  | alu width op source =>
    cases source with
    | imm =>
      have hdiv := not_dividesByLowZero hinst hdecode (by simp)
      have htrap := aluValue_imm_ne_trap (a := m.reg inst.dst) host.longShift hcheck
      simp only [execInst,aluOperand]
      cases hvalue : aluValue host.longShift width op .imm (m.reg inst.dst) (inst.imm.signExtend 64) with
      | value v => exact .running hdiv (.inl (hmem hsuccs))
      | divisionByZero => exact .returned _ hdiv
      | trap => exact absurd hvalue htrap
    | reg =>
      have hdiv := dividesByLowZero_iff hinst hdecode host.longShift (m.reg inst.dst)
      simp only [execInst,aluOperand]
      cases hvalue : aluValue host.longShift width op .reg (m.reg inst.dst) (m.reg inst.src) with
      | value v => exact .running (by simp [hdiv,hvalue]) (.inl (hmem hsuccs))
      | divisionByZero => exact .returned _ (by simp [hdiv,hvalue])
      | trap => exact .trapped (hdiv.mpr hvalue)
  | neg width | le | be | ldabs z | ldind z =>
    exact .running (not_dividesByLowZero hinst hdecode (by simp)) (.inl (hmem hsuccs))
  | ldx z | st z | stx z =>
    have hdiv := not_dividesByLowZero hinst hdecode (by simp)
    simp only [execInst]
    split_ifs
    · exact .running hdiv (.inl (hmem hsuccs))
    · exact .returned _ hdiv
  | lddw =>
    have hdiv := not_dividesByLowZero hinst hdecode (by simp)
    cases hsecond : vm.insts[m.pc.toNat+1]? with
    | none => simp [checkOpcode,hsecond] at hcheck
    | some second =>
      have hlt := (List.getElem?_eq_some_iff.mp hsecond).1
      have hsuccs' := cfgSuccs_of_zero hsecond (opcode_of_checkOpcode_lddw hcheck hsecond)
      have hnext' : (m.pc+1+1).toNat=m.pc.toNat+1+1 := by rw [toNat_pc_add_one hsize (hnext.symm ▸ hlt),hnext]
      simp only [execInst,hnext,hsecond]
      refine .running hdiv (.inr ⟨m.pc.toNat+1,?_,?_⟩)
      · rw [hsuccs]
        exact mem_singleton_self _
      · rw [hsuccs']
        exact mem_singleton.mpr hnext'
  | ja =>
    refine .running (not_dividesByLowZero hinst hdecode (by simp)) (.inl ?_)
    rw [hsuccs,opcodeSuccs]
    exact mem_singleton.mpr (hjump (.inl rfl))
  | jump op source =>
    have hdiv := not_dividesByLowZero hinst hdecode (by simp)
    simp only [execInst]
    split_ifs
    · refine .running hdiv (.inl ?_)
      rw [hsuccs,opcodeSuccs]
      exact mem_cons_of_mem _ (mem_singleton.mpr (hjump (.inr ⟨op,source,rfl⟩)))
    · refine .running hdiv (.inl ?_)
      rw [hsuccs,opcodeSuccs]
      exact mem_cons.mpr (.inl hnext)
  | call =>
    have hdiv := not_dividesByLowZero hinst hdecode (by simp)
    cases hfunc : vm.extFuncs inst.imm.toNat with
    | none =>
      simp only [checkOpcode,hfunc,isNone_none,if_true] at hcheck
      split_ifs at hcheck
    | some func =>
      simp only [execInst,hfunc]
      exact .running hdiv (.inl (hmem hsuccs))
  | exit => exact .returned _ (not_dividesByLowZero hinst hdecode (by simp))

inductive RunEnds (vm : UbpfVm σ) (host : Host) (fuel : Nat) (m : Machine σ) : Prop
  | returned (r : BitVec 64) (hrun : execRun vm host fuel m=.returned r)
      (h : ∀ k m', execRun vm host k m=.running m' → ¬DividesByLowZero vm m')
  | trapped (hrun : execRun vm host fuel m=.trapped)
      (h : ∃ k m', execRun vm host k m=.running m' ∧ DividesByLowZero vm m')

theorem execRun_succ_running {host : Host} {m m' : Machine σ} (hstep : execStep vm host m=.running m') (fuel : Nat) :
    execRun vm host (fuel+1) m=execRun vm host fuel m' := by
  rw [execRun,hstep]

theorem RunEnds.step {host : Host} {fuel : Nat} {m m' : Machine σ} (hstep : execStep vm host m=.running m')
    (hdiv : ¬DividesByLowZero vm m) (h : RunEnds vm host fuel m') : RunEnds vm host (fuel+1) m := by
  cases h with
  | returned r hrun hclean =>
    refine .returned r (by rw [execRun_succ_running hstep,hrun]) fun k m'' hk => ?_
    cases k with
    | zero =>
      cases hk
      exact hdiv
    | succ k =>
      rw [execRun_succ_running hstep] at hk
      exact hclean k m'' hk
  | trapped hrun hdirty =>
    obtain ⟨k,m'',hk,hdiv'⟩ := hdirty
    exact .trapped (by rw [execRun_succ_running hstep,hrun]) ⟨k+1,m'',by rw [execRun_succ_running hstep,hk],hdiv'⟩

theorem run_ends (hvalid : validateInstructions vm=.ok ()) (hsize : vm.insts.length < maxInsts) (host : Host)
    {l : List Nat} (htop : Topological (cfgSuccs vm.insts) l) (hinside : ∀ v ∈ l, v<vm.insts.length) {fuel : Nat}
    (hfuel : l.length≤fuel) (hm : m.pc.toNat ∈ l) : RunEnds vm host fuel m := by
  induction l generalizing fuel m with
  | nil => cases hm
  | cons v rest ih =>
    have hinside' : ∀ w ∈ rest, w<vm.insts.length := fun w hw =>
      hinside w (mem_cons_of_mem v hw)
    rw [length_cons] at hfuel
    rcases mem_cons.mp hm with hv | hm'
    · obtain ⟨fuel,rfl⟩ : ∃ k, fuel=k+1 := ⟨fuel-1,by omega⟩
      have heffect := execStep_effect hvalid hsize host (hinside _ hm)
      generalize hstep : execStep vm host m=result at heffect
      cases heffect with
      | returned r hdiv =>
        refine .returned r (by simp [execRun,hstep]) fun k m' hk => ?_
        cases k with
        | zero =>
          cases hk
          exact hdiv
        | succ k => simp [execRun,hstep] at hk
      | trapped hdiv => exact .trapped (by simp [execRun,hstep]) ⟨0,m,rfl,hdiv⟩
      | @running m' hdiv hpc =>
        have hforward : m'.pc.toNat ∈ rest := by
          rw [hv] at hpc
          rcases hpc with hpc | ⟨w,hw,hpc⟩
          · exact htop.1 _ hpc
          · exact htop.2.closed (htop.1 w hw) hpc
        exact .step hstep hdiv (ih htop.2 hinside' (by omega) hforward)
    · exact ih htop.2 hinside' (by omega) hm'

theorem not_runsOff_of_last (hvalid : validateInstructions vm=.ok ()) (hsize : vm.insts.length < maxInsts)
    {last : EbpfInst} (hlast : vm.insts[vm.insts.length-1]?=some last)
    (ho : decode last.opcode=some .exit ∨ decode last.opcode=some .ja) :
    ¬RunsOff (cfgSuccs vm.insts) (cfgInside vm.insts) 0 := by
  have hpos : 0<vm.insts.length := Nat.lt_of_le_of_lt (Nat.zero_le _) (List.getElem?_eq_some_iff.mp hlast).1
  have hclosed : ∀ v<vm.insts.length, ∀ u ∈ cfgSuccs vm.insts v, u<vm.insts.length := by
    intro v hv u hu
    have hinst : vm.insts[v]?=some vm.insts[v] := List.getElem?_eq_getElem hv
    generalize vm.insts[v]=inst at hinst
    -- Only the last instruction could fall through to the end.
    have hfall : (decode inst.opcode≠some .exit ∧ decode inst.opcode≠some .ja) → v+1<vm.insts.length := by
      rintro ⟨hexit,hja⟩
      by_contra hend
      obtain rfl : v=vm.insts.length-1 := by omega
      obtain rfl : inst=last := some.inj (hinst.symm.trans hlast)
      exact ho.elim hexit hja
    rcases validateInstructions_ok hvalid hinst with hzero | ⟨o,hdecode,hcheck⟩
    · rw [cfgSuccs_of_zero hinst hzero,mem_singleton] at hu
      rw [hu]
      rw [hzero,decode_zero] at hfall
      exact hfall (by simp)
    · have hjump (ho : o=.ja ∨ ∃ op source, o=.jump op source) :
          branchTarget v inst<vm.insts.length := by
        have htarget := jumpTarget_of_check ho hcheck
        rw [(jump_targets hv hsize htarget.1 htarget.2).1]
        omega
      rw [cfgSuccs_of_decode hinst hdecode] at hu
      cases o with
      | ja =>
        rw [opcodeSuccs,mem_singleton] at hu
        exact hu ▸ hjump (.inl rfl)
      | exit => simp [opcodeSuccs] at hu
      | jump op source =>
        rcases mem_cons.mp hu with rfl | hu
        · exact hfall (by simp [hdecode])
        · exact mem_singleton.mp hu ▸ hjump (.inr ⟨op,source,rfl⟩)
      | alu w op source | neg w | le | be | ldabs z | ldind z | ldx z | st z | stx z | lddw | call =>
        rw [opcodeSuccs,mem_singleton] at hu
        · rw [hu]
          exact hfall (by simp [hdecode])
        all_goals simp
  intro hoff
  generalize 0=v at hoff hpos
  induction hoff with
  | outside hv => exact hv hpos
  | step hsuccs _ _ ih => exact ih (hclosed _ hpos _ (by simp [hsuccs]))

/-- A checked program whose last instruction is `EXIT` or an unconditional jump never sends
`validate_cfg` out of its arrays. -/
theorem validateCfg_inBounds (hvalid : validateInstructions vm=.ok ()) (hsize : vm.insts.length < maxInsts)
    {last : EbpfInst} (hlast : vm.insts[vm.insts.length-1]?=some last)
    (ho : decode last.opcode=some .exit ∨ decode last.opcode=some .ja) :
    ∃ exit, validateCfg vm.insts=some exit ∧ exit≠.outOfBounds := by
  obtain ⟨exit,hcfg,-,hout⟩ := validateCfg_spec vm.insts
  exact ⟨exit,hcfg,fun h => not_runsOff_of_last hvalid hsize hlast ho (hout.mp h)⟩

/-- `validate_cfg` comes to an end; it leaves its arrays exactly if the walk that takes a jump only
where all paths of the instruction after it are in order runs past the last instruction.  The
program that it accepts is run to an end in at most one step for each instruction, which is
`EXIT` or an error unless a 32-bit division traps. -/
theorem controlFlow_checked (vm : UbpfVm σ) (hsize : vm.insts.length < maxInsts)
    (hvalid : validateInstructions vm=.ok ()) :
    (∃ exit, validateCfg vm.insts=some exit ∧
      (exit≠.outOfBounds ↔ ¬RunsOff (cfgSuccs vm.insts) (cfgInside vm.insts) 0)) ∧
    (validateCfg vm.insts=some .accepted → ∀ (host : Host) reg memory world,
      (∃ r, execRun vm host vm.insts.length (.start host reg memory world)=.returned r) ∨
        execRun vm host vm.insts.length (.start host reg memory world)=.trapped) ∧
    (validateCfg vm.insts=some .accepted → ∀ (host : Host) reg memory world,
      (∃ r, execRun vm host vm.insts.length (.start host reg memory world)=.returned r) ↔
        ∀ k m, execRun vm host k (.start host reg memory world)=.running m → ¬DividesByLowZero vm m) := by
  obtain ⟨exit,hcfg,haccepted,hout⟩ := validateCfg_spec vm.insts
  have hends (h : validateCfg vm.insts=some .accepted) (host : Host) (reg : BitVec 4 → BitVec 64)
      (memory : Memory) (world : σ) :
      RunEnds vm host vm.insts.length (.start host reg memory world) := by
    obtain ⟨l,htop,hnodup,hinside,hzero⟩ := haccepted (some.inj (hcfg.symm.trans h))
    exact run_ends hvalid hsize host htop hinside (length_le_of_inside hnodup hinside) hzero
  refine ⟨⟨exit,hcfg,not_congr hout⟩,fun h host reg memory world => ?_, fun h host reg memory world => ?_⟩
  · cases hends h host reg memory world with
    | returned r hrun _ => exact .inl ⟨r,hrun⟩
    | trapped hrun _ => exact .inr hrun
  · cases hends h host reg memory world with
    | returned r hrun hclean => exact ⟨fun _ => hclean,fun _ => ⟨r,hrun⟩⟩
    | trapped hrun hdirty =>
      obtain ⟨k,m,hk,hdiv⟩ := hdirty
      exact ⟨fun ⟨r,hr⟩ => by simp [hrun] at hr,fun hclean => absurd hdiv (hclean k m hk)⟩

private def moveImm : EbpfInst := ⟨(Opcode.alu .wide .mov .imm).code,0,0,0,1⟩
private def exitInst : EbpfInst := ⟨Opcode.exit.code,0,0,0,0⟩
private def plainVm (insts : List EbpfInst) : UbpfVm Unit := ⟨insts,fun _ => none⟩

theorem moveExit_checked : validateInstructions (plainVm [moveImm,exitInst])=.ok () ∧ ∀ (host : Host) reg memory world,
        (∃ r, execRun (plainVm [moveImm,exitInst]) host 2 (.start host reg memory world) = .returned r) ∨
        execRun (plainVm [moveImm,exitInst]) host 2 (.start host reg memory world)=.trapped :=
  ⟨rfl,(controlFlow_checked (plainVm [moveImm,exitInst]) (by decide) rfl).2.1 rfl⟩

theorem moveExit_inBounds : ∃ exit, validateCfg [moveImm,exitInst]=some exit ∧ exit≠.outOfBounds :=
  @validateCfg_inBounds _ (plainVm [moveImm,exitInst]) rfl (by decide) _ rfl (.inl rfl)

private def divideLowZero : List EbpfInst :=
  [⟨Opcode.lddw.code,1,0,0,0⟩,⟨0,0,0,0,1⟩,moveImm,⟨(Opcode.alu .narrow .div .reg).code,0,1,0,0⟩,exitInst]

private def plainHost : Host := ⟨0,0,0,fun _ _ _ _ => 0⟩

/-- Without an `EXIT` at its end, the one instruction has an edge past the arrays.  And a program that
passes ends in a trap. -/
theorem controlFlow_unchecked : (validateInstructions (plainVm [moveImm])=.ok () ∧
      validateCfg (plainVm [moveImm]).insts=some .outOfBounds) ∧
    validateInstructions (plainVm divideLowZero)=.ok () ∧ validateCfg (plainVm divideLowZero).insts=some .accepted ∧
      execRun (plainVm divideLowZero) plainHost 5 (.start plainHost (fun _ => 0) (fun _ => 0) ()) = .trapped :=
  ⟨⟨rfl,rfl⟩,rfl,rfl,rfl⟩
end
end P4Benchmarks.P4rtOvs
