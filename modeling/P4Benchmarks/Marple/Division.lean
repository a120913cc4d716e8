import P4Benchmarks.Marple.Linear
/-!
# Lowering of divisions

`transformDivision` turns a division by a constant power of two into a right shift and refuses
every other division.  Constants are Java `Integer`s, kept as the number that has the same 32 bits.
-/
namespace P4Benchmarks.Marple
def integerMin : BitVec 32 := 0x80000000
variable (x : BitVec 32)
def isPowerOf2 : Bool := x&&&(x-1)==0

/-- `(int)(Math.log(x) / Math.log(2))`, with an exact quotient for powers of two.  The logarithm
of 0 is minus infinity, which is cast to the least integer; that of a negative number is not a
number, which is cast to 0. -/
def getPowerOf2 : BitVec 32 :=
  if x=0 then integerMin
  else if x.slt 0 then 0
  else .ofNat 32 x.toNat.log2

theorem exists_toNat_of_isPowerOf2 {x : BitVec 32} (h : isPowerOf2 x) (h0 : x≠0) : ∃ k, x.toNat=2^k := by
  have hpos : x.toNat≠0 := fun hx => h0 (BitVec.eq_of_toNat_eq hx)
  have hone : (1 : BitVec 32)≤x := by exact Nat.one_le_iff_ne_zero.mpr hpos
  have hand : x.toNat&&&x.toNat-1=0 := by
    have hbits := congrArg BitVec.toNat (beq_iff_eq.mp h)
    rw [BitVec.toNat_and,BitVec.toNat_sub_of_le hone] at hbits
    exact hbits
  exact (Nat.and_sub_one_eq_zero_iff_isPowerOfTwo hpos).mp hand

theorem udiv_eq_ushiftRight_getPowerOf2 {x : BitVec 32} (h : isPowerOf2 x) (h0 : x≠0)
    (hmin : x≠integerMin) (y : BitVec 32) : y/x=y>>>getPowerOf2 x := by
  obtain ⟨k,hk⟩ := exists_toNat_of_isPowerOf2 h h0
  have hk32 : k<32 := (Nat.pow_lt_pow_iff_right (by decide)).mp (hk ▸ x.isLt)
  have hk31 : k≠31 := by
    rintro rfl
    exact hmin (BitVec.eq_of_toNat_eq hk)
  have hlt : x.toNat<2^31 := by
    rw [hk]
    exact Nat.pow_lt_pow_right (by decide) (by omega)
  have hsign : ¬ x.slt 0 := by
    change ¬ x.slt 0#32
    rw [BitVec.slt_zero_iff_msb_cond,BitVec.msb_eq_decide,decide_eq_true_eq]
    omega
  have hshift : getPowerOf2 x=.ofNat 32 k := by rw [getPowerOf2,if_neg h0,if_neg hsign,hk,Nat.log2_two_pow]
  apply BitVec.eq_of_toNat_eq
  rw [hshift,BitVec.toNat_udiv,hk,BitVec.ushiftRight_eq',BitVec.toNat_ushiftRight,
    BitVec.toNat_ofNat,Nat.mod_eq_of_lt (by omega),Nat.shiftRight_eq_div_pow]

def shiftIntWidth : Nat := 8
namespace AugExpr
def transformDivision : AugExpr → Except JavaError AugExpr
  | .id x => .ok (.id x)
  | .val v w => .ok (.val v w)
  | .comb .div child0 (.val v _) =>
    let val := .ofNat 32 v
    if isPowerOf2 val then
      let shiftCount := getPowerOf2 val
      if (BitVec.ofNat 32 shiftIntWidth).slt shiftCount then .error .runtime
      else do
        let child0 ← child0.transformDivision
        .ok (.comb .rshift child0 (.val shiftCount.toNat shiftIntWidth))
    else .error .runtime
  | .comb .div _ _ => .error .runtime
  | .comb op child0 child1 => do
    let child0 ← child0.transformDivision
    let child1 ← child1.transformDivision
    .ok (.comb op child0 child1)

@[local simp] def evalDefined (σ : Store) : AugExpr → Option (BitVec 32)
  | .id x => some (σ x)
  | .val v _ => some (.ofNat 32 v)
  | .comb op l r => do
    let x ← l.evalDefined σ
    let y ← r.evalDefined σ
    if op=.div ∧ y=0 then none else some (op.eval x y)

@[local simp] def divisors : AugExpr → List AugExpr
  | .id _ => []
  | .val _ _ => []
  | .comb op l r => (if op=.div then [r] else [])++l.divisors++r.divisors

/-- A divisor that `transformDivision` lets pass: a constant that looks like a power of two and
whose logarithm is not too large. -/
def accepted : AugExpr → Bool
  | .val v _ => isPowerOf2 (.ofNat 32 v) &&
      !(BitVec.ofNat 32 shiftIntWidth).slt (getPowerOf2 (.ofNat 32 v))
  | _ => false

@[local simp] def isInteger : AugExpr → Bool
  | .val v _ => .ofNat 32 v==x
  | _ => false

theorem transformDivision_div (l : AugExpr) (v w : Nat) :
    (AugExpr.comb .div l (.val v w)).transformDivision = if (AugExpr.val v w).accepted then
        l.transformDivision >>= fun l' =>
          .ok (.comb .rshift l' (.val (getPowerOf2 (.ofNat 32 v)).toNat shiftIntWidth))
      else .error .runtime := by
  simp only [transformDivision,accepted]
  by_cases hpow : isPowerOf2 (.ofNat 32 v)
  · simp only [hpow,if_true,Bool.true_and,Bool.not_eq_true',← Bool.not_eq_true,ite_not]
  · simp only [hpow,Bool.false_and,Bool.false_eq_true,if_false]

theorem transformDivision_other {op : Binop} (hop : op≠.div) (l r : AugExpr) : (AugExpr.comb op l r).transformDivision =
      l.transformDivision >>= fun l' => r.transformDivision >>= fun r' => .ok (.comb op l' r') := by
  cases op with
  | div => exact absurd rfl hop
  | add | sub | mul | rshift => rfl

theorem transformDivision_comb {op : Binop} {l r e' : AugExpr} (h : (AugExpr.comb op l r).transformDivision=.ok e') :
    (∃ v w l', op=.div ∧ r=.val v w ∧ r.accepted ∧ l.transformDivision=.ok l' ∧
      e'=.comb .rshift l' (.val (getPowerOf2 (.ofNat 32 v)).toNat shiftIntWidth)) ∨
    ∃ l' r', op≠.div ∧ l.transformDivision=.ok l' ∧ r.transformDivision=.ok r' ∧ e'=.comb op l' r' := by
  by_cases hop : op=.div
  · subst hop
    cases r with
    | val v w =>
      rw [transformDivision_div] at h
      split_ifs at h with hacc
      obtain ⟨l',hl,heq⟩ := bind_eq_ok h
      exact .inl ⟨v,w,l',rfl,rfl,hacc,hl,(Except.ok.inj heq).symm⟩
    | id x | comb op' l' r' => cases h
  · rw [transformDivision_other hop] at h
    obtain ⟨l',hl,h⟩ := bind_eq_ok h
    obtain ⟨r',hr,heq⟩ := bind_eq_ok h
    exact .inr ⟨l',r',hop,hl,hr,(Except.ok.inj heq).symm⟩

theorem transformDivision_isOk (e : AugExpr) : (∃ e', e.transformDivision=.ok e') ↔ ∀ r ∈ e.divisors, r.accepted := by
  induction e with
  | id x | val v w => exact ⟨fun _ r hr => by simp at hr,fun _ => ⟨_,rfl⟩⟩
  | comb op l r ihl ihr =>
    constructor
    · rintro ⟨e',he⟩
      obtain ⟨v,w,l',rfl,rfl,hacc,hl,-⟩ | ⟨l',r',hop,hl,hr,-⟩ := transformDivision_comb he
      · have hdl := ihl.mp ⟨l',hl⟩
        simpa [hacc] using hdl
      · have hdl := ihl.mp ⟨l',hl⟩
        have hdr := ihr.mp ⟨r',hr⟩
        simp only [divisors,if_neg hop,List.nil_append,List.mem_append]
        exact fun d hd => hd.elim (hdl d) (hdr d)
    · intro h
      obtain ⟨l',hl⟩ := ihl.mpr fun d hd => h d (by simp [hd])
      by_cases hop : op=.div
      · subst hop
        have hacc : r.accepted := h r (by simp)
        cases r with
        | val v w => exact ⟨_,by rw [transformDivision_div,if_pos hacc,hl]; rfl⟩
        | id x | comb op' l' r' => cases hacc
      · obtain ⟨r',hr⟩ := ihr.mpr fun d hd => h d (by simp [hd])
        exact ⟨_,by rw [transformDivision_other hop,hl,hr]; rfl⟩

theorem evalDefined_comb {σ : Store} {op : Binop} {l r : AugExpr} {x y : BitVec 32} (hl : l.evalDefined σ=some x)
    (hr : r.evalDefined σ=some y) (hdef : op=.div → y≠0) : (AugExpr.comb op l r).evalDefined σ=some (op.eval x y) := by
  have hneg : ¬ (op=.div ∧ y=0) := fun h => hdef h.1 h.2
  simp only [evalDefined,hl,hr,Option.bind_eq_bind,Option.bind_some,if_neg hneg]

/-- If no accepted divisor is 0 or the least integer, the rewritten tree has the value of the
original, and no division. -/
theorem transformDivision_spec {e e' : AugExpr} (h : e.transformDivision=.ok e')
    (hdiv : ∀ r ∈ e.divisors, r.isInteger 0=false ∧ r.isInteger integerMin=false) :
    e'.divisors=[] ∧ ∀ σ, ∃ v, e.evalDefined σ=some v ∧ e'.evalDefined σ=some v := by
  induction e generalizing e' with
  | id x =>
    cases h
    exact ⟨rfl,fun σ => ⟨σ x,rfl,rfl⟩⟩
  | val v w =>
    cases h
    exact ⟨rfl,fun σ => ⟨_,rfl,rfl⟩⟩
  | comb op l r ihl ihr =>
    obtain ⟨v,w,l',rfl,rfl,hacc,hl,rfl⟩ | ⟨l',r',hop,hl,hr,rfl⟩ := transformDivision_comb h
    · obtain ⟨hdl,hevl⟩ := ihl hl fun d hd => hdiv d (by simp [hd])
      have hself := hdiv (.val v w) (by simp)
      have h0 : BitVec.ofNat 32 v≠0 := by simpa using hself.1
      have hmin : .ofNat 32 v≠integerMin := by simpa using hself.2
      have hpow : isPowerOf2 (.ofNat 32 v) := by
        rw [accepted,Bool.and_eq_true] at hacc
        exact hacc.1
      refine ⟨by simp [hdl],fun σ => ?_⟩
      obtain ⟨x,hx,hx'⟩ := hevl σ
      refine ⟨x/.ofNat 32 v,evalDefined_comb hx rfl fun _ => h0,?_⟩
      have hshift : (AugExpr.comb .rshift l' (.val (getPowerOf2 (.ofNat 32 v)).toNat shiftIntWidth)).evalDefined σ =
          some (x>>>BitVec.ofNat 32 (getPowerOf2 (.ofNat 32 v)).toNat) :=
        evalDefined_comb hx' rfl (by intro hop; cases hop)
      rw [hshift,udiv_eq_ushiftRight_getPowerOf2 hpow h0 hmin,BitVec.ofNat_toNat,BitVec.setWidth_eq]
    · obtain ⟨hdl,hevl⟩ := ihl hl fun d hd => hdiv d (by simp [hd])
      obtain ⟨hdr,hevr⟩ := ihr hr fun d hd => hdiv d (by simp [hd])
      refine ⟨by simp [hop,hdl,hdr],fun σ => ?_⟩
      obtain ⟨x,hx,hx'⟩ := hevl σ
      obtain ⟨y,hy,hy'⟩ := hevr σ
      exact ⟨op.eval x y,evalDefined_comb hx hy fun h => absurd h hop, evalDefined_comb hx' hy' fun h => absurd h hop⟩

theorem evalDefined_eq_none {e d : AugExpr} (hd : d ∈ e.divisors) (h0 : d.isInteger 0)
    (σ : Store) : e.evalDefined σ=none := by
  induction e with
  | id x | val v w => simp at hd
  | comb op l r ihl ihr =>
    have hcases : (op=.div ∧ d=r) ∨ d ∈ l.divisors ∨ d ∈ r.divisors := by
      by_cases hop : op=.div <;> simpa [hop,or_assoc] using hd
    rcases hcases with ⟨rfl,rfl⟩ | hdl | hdr
    · cases d with
      | val v w =>
        have hv : BitVec.ofNat 32 v=0 := by simpa using h0
        cases hl : l.evalDefined σ <;> simp [hl,hv]
      | id x | comb op l r => cases h0
    · simp [ihl hdl]
    · cases hl : l.evalDefined σ <;> simp [hl,ihr hdr]

/-- Either the pass throws, or no division remains and the value is that of the original, in which
every division is defined. -/
def DivisionLowered (e : AugExpr) : Prop :=
  ∀ e', e.transformDivision=.ok e' → e'.divisors=[] ∧ ∀ σ, ∃ v, e.evalDefined σ=some v ∧ e'.evalDefined σ=some v
end AugExpr
open AugExpr in
/-- The pass is right if one of the divisors is refused or none of them is 0 or the least integer.
For trees that do not divide by the least integer this is also necessary. -/
theorem divisionLowered_iff (e : AugExpr) : (((∃ r ∈ e.divisors, r.accepted=false) ∨
        ∀ r ∈ e.divisors, r.isInteger 0=false ∧ r.isInteger integerMin=false) →
      e.DivisionLowered) ∧
    ((∀ r ∈ e.divisors, r.isInteger integerMin=false) → (e.DivisionLowered ↔ (∃ r ∈ e.divisors, r.accepted=false) ∨
        ∀ r ∈ e.divisors, r.isInteger 0=false)) := by
  have hsufficient : ((∃ r ∈ e.divisors, r.accepted=false) ∨
      ∀ r ∈ e.divisors, r.isInteger 0=false ∧ r.isInteger integerMin=false) →
      e.DivisionLowered := by
    rintro (⟨r,hr,hrej⟩ | hdiv) e' he
    · have hacc := (transformDivision_isOk e).mp ⟨e',he⟩ r hr
      rw [hrej] at hacc
      cases hacc
    · exact transformDivision_spec he hdiv
  refine ⟨hsufficient,fun hmin => ⟨fun hlow => ?_,fun h => hsufficient ?_⟩⟩
  · by_contra hneg
    obtain ⟨hacc,hzero⟩ : (∀ r ∈ e.divisors, r.accepted) ∧ ∃ r ∈ e.divisors, r.isInteger 0 := by simpa using hneg
    obtain ⟨e',he⟩ := (transformDivision_isOk e).mpr hacc
    obtain ⟨r,hr,hr0⟩ := hzero
    obtain ⟨v,hv,-⟩ := (hlow e' he).2 fun _ => 0
    rw [evalDefined_eq_none hr hr0] at hv
    cases hv
  · exact h.imp id fun h0 r hr => ⟨h0 r hr,hmin r hr⟩

/-- The pass accepts `x / 0` and shifts by the least integer; it also accepts a division by the
least integer, the unsigned 2 ^ 31, and shifts by 0. -/
theorem divisionLowered_fails : ¬ (AugExpr.ofExpr (.comb .div (.col "x") (.val (.number 0)))).DivisionLowered ∧
      ¬ (AugExpr.comb .div (.id "x") (.const (2^31))).DivisionLowered := by
  constructor
  · intro h
    obtain ⟨v,hv,-⟩ := (h (.comb .rshift (.id "x") (.val (2^31) 8)) rfl).2 fun _ => 0
    cases hv
  · intro h
    obtain ⟨v,hv,hv'⟩ := (h (.comb .rshift (.id "x") (.val 0 8)) rfl).2 fun _ => 1
    have hsame : (0 : BitVec 32)=1 := Option.some.inj (hv.trans hv'.symm)
    exact absurd hsame (by decide)
end P4Benchmarks.Marple
