import P4Benchmarks.Aes.Correct
import P4Benchmarks.AesTofino.TwoRound
/-!
# The two-round program is AES-128

The words of `expand_key` are the columns of the round keys, and a scrambled lookup adds a key byte
before the substitution.  So one pass is two rounds of the cipher.
-/
namespace P4Benchmarks.AesTofino
open Lib.Aes List Aes
open BitVec hiding cons_append
open Aes (fullTable mixWord mixByte)
def scheduleByte (key : BitVec 128) (i : Nat) (r : Fin 4) : Byte :=
  unpack (roundKey key (i/4)) r ⟨i%4,Nat.mod_lt i (by decide)⟩

theorem sboxTable_getD (b : Byte) : sboxTable.getD b.toNat 0=sbox b :=
  (congrFun Aes.AesMeta.sbox_eq_getD b).symm

theorem rconTable_getD {n : Nat} (hn : n<10) : rconTable.getD (n+1) 0=rcon n := by
  revert n
  decide
variable (key : BitVec 128)
theorem scheduleByte_eq (n : Nat) {c : Nat} (hc : c<4) (r : Fin 4) :
    scheduleByte key (4*n+c) r=unpack (roundKey key n) r ⟨c,hc⟩ := by
  have hdiv : (4*n+c)/4=n := by omega
  have hmod : (4*n+c)%4=c := by omega
  simp [scheduleByte,hdiv,hmod]

theorem scheduleByte_add_four (i : Nat) (r : Fin 4) : scheduleByte key (i+4) r = if i%4=0 then
        scheduleByte key i r^^^sbox (scheduleByte key (i+3) (r+1)) ^^^
          if r=0 then rcon (i/4) else 0
      else scheduleByte key i r^^^scheduleByte key (i+3) r := by
  obtain ⟨n,c,hc,rfl⟩ : ∃ n c, c<4 ∧ i=4*n+c := ⟨i/4,i%4,Nat.mod_lt _ (by decide),by omega⟩
  have hnext : unpack (roundKey key (n+1))=nextKey (rcon n) (unpack (roundKey key n)) := by rw [roundKey,unpack_pack]
  have hdiv : (4*n+c)/4=n := by omega
  have hmod : (4*n+c)%4=c := by omega
  have hi : 4*n+c+4=4*(n+1)+c := by omega
  rw [hi,scheduleByte_eq key (n+1) hc,scheduleByte_eq key n hc,hnext,hdiv,hmod]
  cases c with
  | zero =>
    rw [if_pos rfl,scheduleByte_eq key n (by decide : 3<4)]
    rfl
  | succ c =>
    -- the word before is in the same round key
    have hlast : 4*n+(c+1)+3=4*(n+1)+c := by omega
    rw [if_neg (by omega),hlast,scheduleByte_eq key (n+1) (by omega : c<4),hnext,BitVec.xor_comm]
    obtain rfl | rfl | rfl : c=0 ∨ c=1 ∨ c=2 := by omega
    · rfl
    · rfl
    · rfl
variable (block : BitVec 128) (r c : Fin 4)
theorem unpack_eq_extractLsb : unpack block r c=block.extractLsb' (8*(15-(4*c.val+r.val))) 8 := by
  apply eq_of_getLsbD_eq
  intro i hi
  rw [unpack,stateOf,byteOf,columnOf]
  simp only [getLsbD_extractLsb',hi,decide_true,Bool.true_and]
  rw [decide_eq_true (by omega : 24-8*r.val+i<32),Bool.true_and]
  exact congrArg _ (by omega)

theorem wordAt_concat (ws : List Word) (w : Word) (i : Nat) :
    wordAt (ws++[w]) i = if i=ws.length then w else wordAt ws i := by
  unfold wordAt
  rw [getD_eq_getElem?_getD,getD_eq_getElem?_getD,List.getElem?_append]
  split_ifs with hlt heq heq
  · omega
  · rfl
  · simp [heq]
  · simp [List.getElem?_eq_none (by omega : ws.length ≤ i),show i-ws.length≠0 by omega]

theorem wordAt_text2matrix (c r : Fin 4) : (wordAt (text2matrix key) c.val).get r=unpack key r c := by
  rw [unpack_eq_extractLsb]
  match c with
  | 0 | 1 | 2 | 3 => exact Vector.getElem_ofFn _

theorem nextWord_get (ws : List Word) (i : Nat) (r : Fin 4) : (nextWord ws i).get r = if i%4=0 then
      (wordAt ws (i-4)).get r^^^sbox ((wordAt ws (i-1)).get (r+1)) ^^^
        if r=0 then rconTable.getD (i/4) 0 else 0
    else (wordAt ws (i-4)).get r^^^(wordAt ws (i-1)).get r := by
  have hget (f : Fin 4 → Byte) : (Vector.ofFn f).get r=f r := Vector.getElem_ofFn r.isLt
  rw [nextWord]
  by_cases hi : i%4=0
  · rw [if_pos hi,if_pos hi,hget,← sboxTable_getD]
    by_cases hr : r=0
    · subst hr
      rfl
    · rw [if_neg hr,if_neg hr]
      exact xor_zero.symm
  · rw [if_neg hi,if_neg hi,hget]

theorem expandKey_loop {k : Nat} (hk : k≤40) : ∃ roundKeys : List Word, (List.range' 4 k).foldl
        (fun roundKeys i => roundKeys++[nextWord roundKeys i]) (text2matrix key)=roundKeys ∧
      roundKeys.length=4+k ∧
      ∀ i<4+k, ∀ r : Fin 4, (wordAt roundKeys i).get r=scheduleByte key i r := by
  induction k with
  | zero =>
    refine ⟨_,rfl,rfl,fun i hi r => ?_⟩
    have hspec := scheduleByte_eq key 0 (by omega : i<4) r
    rw [Nat.mul_zero,Nat.zero_add] at hspec
    rw [hspec,roundKey]
    exact wordAt_text2matrix key ⟨i,hi⟩ r
  | succ k ih =>
    obtain ⟨roundKeys,hfold,hlen,hwords⟩ := ih (by omega)
    refine ⟨roundKeys++[nextWord roundKeys (4+k)],?_,by simp [hlen]; omega,?_⟩
    · rw [List.range'_concat,foldl_append,hfold]
      simp
    · intro i hi r
      rw [wordAt_concat,hlen]
      split_ifs with heq
      · subst heq
        have hmod : (k+4)%4=k%4 := by omega
        have hdiv : (k+4)/4=k/4+1 := by omega
        have hbefore := hwords k (by omega)
        have hlast := hwords (k+3) (by omega)
        rw [Nat.add_comm 4 k,scheduleByte_add_four,nextWord_get,hmod,hdiv,Nat.add_sub_cancel,show k+4-1=k+3 from rfl]
        rw [hbefore r,hlast r,hlast (r+1),rconTable_getD (by omega)]
      · exact hwords i (by omega) r

theorem wordAt_expandKey {n : Nat} (hn : n≤10) (c r : Fin 4) :
    (wordAt (expandKey key) (4*n+c.val)).get r=unpack (roundKey key n) r c := by
  obtain ⟨roundKeys,hfold,-,hwords⟩ := expandKey_loop key le_rfl
  have hc := c.isLt
  rw [expandKey,hfold,hwords _ (by omega),scheduleByte_eq key n hc]

theorem lookup_map_eq_some {α β γ : Type} [BEq β] [LawfulBEq β] (f : α → β) (g : α → γ)
    {xs : List α} {x : α} (hx : x ∈ xs) (hinj : ∀ y ∈ xs, f y=f x → y=x) :
    (xs.map fun y => (f y,g y)).lookup (f x)=some (g x) := by
  induction xs with
  | nil => cases hx
  | cons y ys ih =>
    rw [map_cons]
    by_cases hy : f y=f x
    · rw [hinj y mem_cons_self hy,lookup_cons_self]
    · have hne : (f x==f y)=false := beq_false_of_ne (Ne.symm hy)
      rw [lookup_cons,hne]
      refine ih ?_ fun z hz => hinj z (mem_cons_of_mem _ hz)
      rcases mem_cons.mp hx with rfl | hx
      · exact absurd rfl hy
      · exact hx

def allBytes : List Byte := (List.range 256).map (.ofNat 8)
theorem mem_allBytes (b : Byte) : b ∈ allBytes := mem_map.mpr ⟨b.toNat,mem_range.mpr b.isLt,by simp⟩

theorem dump_eq {t : ScrambledLookupTable} {f : Byte → BitVec 32} (ht : t.lut=fullTable f) :
    t.dump=allBytes.map fun b => (b^^^t.xorval,f b) := by
  rw [ScrambledLookupTable.dump,ht,allBytes,map_map]
  refine map_congr_left fun i hi => ?_
  rw [fullTable,getD_eq_getElem?_getD,List.getElem?_map,List.getElem?_range (mem_range.mp hi)]
  rfl

theorem lookup_dump {t : ScrambledLookupTable} {f : Byte → BitVec 32} (ht : t.lut=fullTable f)
    (s : Byte) : t.dump.lookup s=some (f (s^^^t.xorval)) := by
  have hcancel : ∀ b : Byte, b^^^t.xorval^^^t.xorval=b := by
    intro b
    rw [xor_assoc,BitVec.xor_self,xor_zero]
  have hlookup : (allBytes.map fun b => (b^^^t.xorval,f b)).lookup
      (s^^^t.xorval^^^t.xorval)=some (f (s^^^t.xorval)) := by
    refine lookup_map_eq_some (fun b => b^^^t.xorval) f (mem_allBytes _) fun b _ heq => ?_
    rw [← hcancel b,heq,hcancel]
  rw [dump_eq ht]
  rwa [hcancel] at hlookup

theorem lookup_withRound (es : List (Byte × BitVec 32)) (s rnd rnd' : Byte) :
    (es.map fun e => ((e.1,rnd),e.2)).lookup (s,rnd') =
      if rnd'=rnd then es.lookup s else none := by
  induction es with
  | nil => simp
  | cons e es ih =>
    rw [map_cons,lookup_cons,ih,lookup_cons]
    by_cases hrnd : rnd'=rnd
    · subst hrnd
      by_cases hs : s=e.1
      · simp [hs]
      · have hkey : ((s,rnd')==(e.1,rnd'))=false := beq_false_of_ne (by simp [hs])
        simp [hkey,beq_false_of_ne hs]
    · have hkey : ((s,rnd')==(e.1,rnd))=false := beq_false_of_ne (by simp [hrnd])
      simp [hkey,hrnd]

theorem rules_filter : (rules.filter fun rule => rule.2=(r,c))=[((r-c,c),r,c)] := by
  revert r c
  decide

theorem xorIndex_rule : xorIndex (r-c) c=(r,c) := by
  revert r c
  decide

def roundWord (n : Nat) (c : Fin 4) (b : Byte) : BitVec 32 :=
  if n<10 then mixWord c (sbox b) else BitVec.shiftLeft ((sbox b).zeroExtend 32) (24-8*c.val)
variable (expandedKey : List Word)
theorem scrambled_rule (b : Nat) (tables : Fin 4 → List (BitVec 32)) (r c : Fin 4) :
    scrambled expandedKey b tables (r-c) c = ⟨(wordAt expandedKey (b+r.val)).get c,tables c⟩ := by
  rw [scrambled,xorIndex_rule]

theorem te_eq (c : Fin 4) :
    (![te0,te1,te2,te3] : Fin 4 → List (BitVec 32)) c=fullTable fun b => mixWord c (sbox b) := by
  match c with
  | 0 => exact genLut0_eq
  | 1 => exact genLut1_eq
  | 2 => exact genLut2_eq
  | 3 => exact genLut3_eq

theorem lastTables_eq (c : Fin 4) : lastTables c=shiftedSbox (24-8*c.val) := by
  match c with
  | 0 | 1 | 2 | 3 => rfl

theorem generateLUT_eq {n : Nat} (h₁ : 1≤n) (h₁₀ : n≤10) : ∃ luts, generateLUT (expandKey key) n=some luts ∧
      ∀ r c : Fin 4, (luts (r-c) c).xorval=unpack (roundKey key (n-1)) c r ∧
        (luts (r-c) c).lut=fullTable (roundWord n c) := by
  have hxor : ∀ r c : Fin 4, (wordAt (expandKey key) (4*(n-1)+r.val)).get c =
      unpack (roundKey key (n-1)) c r := fun r c => wordAt_expandKey key (by omega) r c
  by_cases hn : n<10
  · refine ⟨scrambled (expandKey key) (4*(n-1)) ![te0,te1,te2,te3],?_,fun r c => ?_⟩
    · rw [generateLUT,if_pos ⟨h₁,hn⟩,show n*4-4=4*(n-1) by omega]
    · rw [scrambled_rule,te_eq]
      refine ⟨hxor r c,?_⟩
      unfold roundWord
      simp [hn]
  · obtain rfl : n=10 := by omega
    refine ⟨scrambled (expandKey key) 36 lastTables,rfl,fun r c => ?_⟩
    rw [scrambled_rule,lastTables_eq]
    refine ⟨hxor r c,?_⟩
    rw [shiftedSbox,sboxTable,genLutSbox_eq,fullTable,map_map]
    rfl

theorem lookup_flatMap_eq_some {α β γ : Type} [BEq β] {f : α → List (β × γ)} {xs : List α} {k : β}
    {x : α} {v : γ} (hx : x ∈ xs) (hv : (f x).lookup k=some v)
    (hothers : ∀ y ∈ xs, y≠x → (f y).lookup k=none) : (xs.flatMap f).lookup k=some v := by
  induction xs with
  | nil => cases hx
  | cons y ys ih =>
    rw [flatMap_cons,lookup_append]
    by_cases hy : y=x
    · rw [hy,hv,Option.some_or]
    · have hrest := (mem_cons.mp hx).resolve_left (Ne.symm hy)
      rw [hothers y mem_cons_self hy,Option.none_or]
      exact ih hrest fun z hz => hothers z (mem_cons_of_mem _ hz)

theorem tbLookup_lookupEntries {p second : Nat} (hp : p<5) (hsecond : second≤1)
    (r c : Fin 4) (s : Byte) (v : BitVec 32) :
    tbLookup (lookupEntries (expandKey key) second r c) s (.ofNat 8 (2*p)) v =
      roundWord (2*p+1+second) c (s^^^unpack (roundKey key (2*p+second)) c r) := by
  have hround : ∀ rndNum ∈ [1,3,5,7,9], rndNum≠2*p+1 → .ofNat 8 (2*p)≠BitVec.ofNat 8 (rndNum-1) := by
    intro rndNum hmem hne heq
    have htoNat := congrArg BitVec.toNat heq
    simp only [toNat_ofNat] at htoNat
    simp only [mem_cons,not_mem_nil,or_false] at hmem
    omega
  obtain ⟨luts,hluts,hentry⟩ := generateLUT_eq key (n := 2*p+1+second) (by omega) (by omega)
  obtain ⟨hxor,hlut⟩ := hentry r c
  rw [show 2*p+1+second-1=2*p+second by omega] at hxor
  have hlookup : (lookupEntries (expandKey key) second r c).lookup (s,.ofNat 8 (2*p)) = some (roundWord (2*p+1+second) c
        (s^^^unpack (roundKey key (2*p+second)) c r)) := by
    refine lookup_flatMap_eq_some (x := 2*p+1) ?_ ?_ fun rndNum hmem hne => ?_
    · match p, hp with
      | 0, _ | 1, _ | 2, _ | 3, _ | 4, _ => decide
    · rw [hluts]
      dsimp only
      rw [rules_filter,flatMap_singleton,lookup_withRound,Nat.add_sub_cancel,if_pos rfl]
      exact (lookup_dump hlut s).trans (by rw [hxor])
    · cases hgen : generateLUT (expandKey key) (rndNum+second) with
      | none => rfl
      | some luts' =>
        dsimp only
        rw [rules_filter,flatMap_singleton,lookup_withRound,if_neg (hround rndNum hmem hne)]
  rw [tbLookup,hlookup]
variable (s : AesInout)
def cells : State := fun r c => s c r

theorem encryptionRound_eq (tables : Fin 4 → Fin 4 → List ((Byte × Byte) × BitVec 32))
    (currRound : Byte) (s : AesInout) (v : Fin 4 → Fin 4 → BitVec 32) (r c : Fin 4) :
    cells (encryptionRound tables currRound s v).1 r c =
      (let w := fun j => tbLookup (tables (c+j) j) (s (c+j) j) currRound (v (c+j) j)
       byteOf (w 0) r^^^byteOf (w 1) r^^^byteOf (w 2) r^^^byteOf (w 3) r) := by
  rw [cells,encryptionRound]
  dsimp only
  rw [xorFin]
  match c with
  | 0 | 1 | 2 | 3 => simp [xorIni,byteOf_xor,xor_assoc]

theorem encryptionRound_mix {p second : Nat} (hp : p<5) (hsecond : second≤1)
    (hn : 2*p+1+second<10) (s : AesInout) (v : Fin 4 → Fin 4 → BitVec 32) :
    cells (encryptionRound (lookupEntries (expandKey key) second) (.ofNat 8 (2*p)) s v).1 =
      mixColumns (shiftRows (subBytes (addRoundKey (cells s) (unpack (roundKey key (2*p+second)))))) := by
  funext r c
  rw [encryptionRound_eq,mixColumns_eq_mixByte]
  simp only [tbLookup_lookupEntries key hp hsecond,roundWord,if_pos hn,mixWord,byteOf_wordOf]
  rfl

theorem byteOf_shiftLeft (b : Byte) (c r : Fin 4) :
    byteOf (BitVec.shiftLeft (b.zeroExtend 32) (24-8*c.val)) r = if r=c then b else 0 := by
  apply eq_of_getLsbD_eq
  intro i hi
  have hshift : BitVec.shiftLeft (b.zeroExtend 32) (24-8*c.val) = b.zeroExtend 32<<<(24-8*c.val) := rfl
  rw [byteOf,hshift,getLsbD_extractLsb',getLsbD_shiftLeft,zeroExtend,getLsbD_setWidth]
  by_cases heq : r=c
  · rw [if_pos heq,heq,Nat.add_sub_cancel_left,decide_eq_true hi,
      decide_eq_true (by omega : 24-8*c.val+i<32),
      decide_eq_false (by omega : ¬ 24-8*c.val+i<24-8*c.val),
      decide_eq_true (by omega : i<32)]
    rfl
  · have hne : r.val≠c.val := fun h => heq (Fin.ext h)
    rw [if_neg heq]
    rcases Nat.lt_or_gt_of_ne hne with hlt | hgt
    · rw [getLsbD_of_ge b _ (by omega)]
      simp
    · rw [decide_eq_true (by omega : 24-8*r.val+i<24-8*c.val)]
      simp

theorem encryptionRound_last (v : Fin 4 → Fin 4 → BitVec 32) :
    cells (encryptionRound (lookupEntries (expandKey key) 1) 8 s v).1 =
      shiftRows (subBytes (addRoundKey (cells s) (unpack (roundKey key 9)))) := by
  have hlookup : ∀ r c s v, tbLookup (lookupEntries (expandKey key) 1 r c) s 8 v =
      BitVec.shiftLeft ((sbox (s^^^unpack (roundKey key 9) c r)).zeroExtend 32) (24-8*c.val) :=
    fun r c s v => tbLookup_lookupEntries key (by decide : 4<5) le_rfl r c s v
  funext r c
  rw [encryptionRound_eq]
  simp only [hlookup,byteOf_shiftLeft]
  match r with
  | 0 | 1 | 2 | 3 => simp [shiftRows,subBytes,addRoundKey,cells]

def beforeKey (key block : BitVec 128) : Nat → State
  | 0 => unpack block
  | n+1 => mixColumns (shiftRows (subBytes (addRoundKey (beforeKey key block n)
    (unpack (roundKey key n)))))
variable (key block : BitVec 128)
theorem unpack_rounds (n : Nat) : unpack (rounds key block n) =
    addRoundKey (beforeKey key block n) (unpack (roundKey key n)) := by
  induction n with
  | zero => rw [rounds,unpack_pack,beforeKey]
  | succ n ih => rw [rounds,unpack_pack,ih,beforeKey]

theorem unpack_aes128 : unpack (aes128 key block) =
    addRoundKey (shiftRows (subBytes (addRoundKey (beforeKey key block 9)
      (unpack (roundKey key 9))))) (unpack (roundKey key 10)) := by
  rw [aes128,unpack_pack,unpack_rounds]

def inout (s : State) : AesInout := fun r c => s c r

theorem eq_inout {s : AesInout} {t : State} (h : cells s=t) : s=inout t := by
  subst h
  rfl

@[local simp] theorem extractAes_emitAes (rest : List Byte) : extractAes (emitAes s++rest)=some (s,rest) := by
  simp only [emitAes,cons_append,nil_append,extractAes,Option.some.injEq,Prod.mk.injEq,and_true]
  funext r c
  match r with
  | 0 | 1 | 2 | 3 =>
    match c with
    | 0 | 1 | 2 | 3 => rfl

theorem extractAesMeta_emitAesMeta (m : AesMeta) (rest : List Byte) :
    extractAesMeta (emitAesMeta m++rest)=some (m,rest) := by
  have hport : m.destPort.extractLsb' 8 8++m.destPort.extractLsb' 0 8=m.destPort := by
    apply eq_of_getLsbD_eq
    intro i hi
    rw [getLsbD_append,getLsbD_extractLsb',getLsbD_extractLsb']
    split_ifs with hlow
    · simp [hlow]
    · rw [decide_eq_true (by omega : i-8<8),Bool.true_and]
      exact congrArg _ (by omega)
  simp [emitAesMeta,extractAesMeta,hport]
variable {hdr : Headers}
theorem parse_deparse {udp : Udp} {s : AesInout} {m : AesMeta} (rest : List Byte) (hudp : hdr.udp=some udp)
    (hport : udp.dstPort=aesPort+1) (haes : hdr.aes=some s) (hmeta : hdr.aesMeta=some m) (hcopy : hdr.copy=none) :
    parse (deparse hdr rest)=some (hdr,rest) := by
  obtain ⟨totalLen,udp',aes,aesMeta,copy⟩ := hdr
  subst hudp haes hmeta hcopy
  simp [parse,deparse,hport,extractAesMeta_emitAesMeta]

def rndPort (chance : Chance) : BitVec 9 := if chance.rndBit=0 then 68 else 68+128

theorem isRecirc_rndPort (chance : Chance) : IsRecirc (rndPort chance) := by
  unfold rndPort
  split_ifs
  · exact .inl rfl
  · exact .inr rfl

theorem lookup_recircEntries {p : Nat} (hp : p<4) : (recircEntries expandedKey).lookup (BitVec.ofNat 8 (2*p)) =
      some (.incrAndRecirc (.ofNat 8 (2*(p+1)))) := by
  match p, hp with
  | 0, _ | 1, _ | 2, _ | 3, _ => rfl

theorem lookup_recircEntries_last : (recircEntries expandedKey).lookup 8 =
      some (.doNotRecircFinalXor (finalXORvect expandedKey)) :=
  rfl
variable {ingressPort : BitVec 9}
theorem switchIngress_recirc {key block : BitVec 128} {p : Nat} (hp : p<4) (chance : Chance)
    {hdr hdr' : Headers} {m : AesMeta}
    (haes : hdr.aes=some (inout (beforeKey key block (2*p))))
    (hmeta : withMeta ingressPort hdr=(hdr',m)) (hround : m.currRound=.ofNat 8 (2*p)) :
    switchIngress (addEverything key) chance ingressPort hdr = some (incrAndRecirc (.ofNat 8 (2*(p+1))) (rndPort chance)
        { hdr' with aes := some (inout (beforeKey key block (2*(p+1)))) } m) := by
  have hfirst : ∀ v, (encryptionRound (addEverything key).tbLookupT (.ofNat 8 (2*p))
      (inout (beforeKey key block (2*p))) v).1=inout (beforeKey key block (2*p+1)) :=
    fun v => eq_inout (encryptionRound_mix key (by omega) (Nat.zero_le 1) (by omega) _ v)
  have hsecond : ∀ v, (encryptionRound (addEverything key).tbLookupT2r (.ofNat 8 (2*p))
      (inout (beforeKey key block (2*p+1))) v).1=inout (beforeKey key block (2*p+2)) :=
    fun v => eq_inout (encryptionRound_mix key (by omega) le_rfl (by omega) _ v)
  rw [switchIngress,haes]
  simp only [hmeta,hround,hfirst,hsecond]
  have hlookup : (addEverything key).tbRecircDecision.lookup m.currRound =
      some (.incrAndRecirc (.ofNat 8 (2*(p+1)))) := by
    rw [hround]
    exact lookup_recircEntries _ hp
  rw [tbRecircDecision,hlookup]
  rfl

theorem switchIngress_last {key block : BitVec 128} (chance : Chance) {m : AesMeta}
    (haes : hdr.aes=some (inout (beforeKey key block 8)))
    (hmeta : hdr.aesMeta=some m) (hround : m.currRound=8) :
    switchIngress (addEverything key) chance ingressPort hdr =
      some (doNotRecirc { hdr with aes := some (inout (unpack (aes128 key block))) } m) := by
  have hfirst : ∀ v, (encryptionRound (addEverything key).tbLookupT 8
      (inout (beforeKey key block 8)) v).1=inout (beforeKey key block 9) :=
    fun v => eq_inout (encryptionRound_mix key (by decide : 4<5) (Nat.zero_le 1) (by decide) _ v)
  have hsecond : ∀ v, (encryptionRound (addEverything key).tbLookupT2r 8 (inout (beforeKey key block 9)) v).1 =
        inout (shiftRows (subBytes (addRoundKey (beforeKey key block 9) (unpack (roundKey key 9))))) :=
    fun v => eq_inout (encryptionRound_last key _ v)
  have hlookup : (addEverything key).tbRecircDecision.lookup m.currRound =
      some (.doNotRecircFinalXor (finalXORvect (expandKey key))) := by
    rw [hround]
    exact lookup_recircEntries_last _
  have hfinal : ∀ s : State, (fun r c => inout s r c^^^(finalXORvect (expandKey key) r).get c) =
      inout (addRoundKey s (unpack (roundKey key 10))) := by
    intro s
    funext r c
    exact congrArg (s c r^^^·) (wordAt_expandKey key le_rfl r c)
  rw [switchIngress,haes]
  simp only [withMeta,hmeta,hround,hfirst,hsecond]
  rw [tbRecircDecision,hlookup]
  dsimp only
  rw [doNotRecircFinalXor,Option.map_some,hfinal,← unpack_aes128]

def blockBytes : List Byte := (List.range 16).map fun i => block.extractLsb' (8*(15-i)) 8

def headersIn (totalLen udpTotalLen destPort : BitVec 16) (p : Nat) : Headers where
  totalLen := totalLen
  udp := some ⟨aesPort+1,udpTotalLen,0⟩
  aes := some (inout (beforeKey key block (2*p)))
  aesMeta := some ⟨destPort,.ofNat 8 (2*p),0xff⟩
  copy := none

def cleartext (totalLen udpTotalLen checksum : BitVec 16) (rest : List Byte) : Packet where
  totalLen := totalLen
  udp := some ⟨aesPort,udpTotalLen,checksum⟩
  payload := blockBytes block++rest

def ciphertext (rest : List Byte) : Packet where
  totalLen := 52
  udp := some ⟨aesPort,32,0⟩
  payload := blockBytes block++emitCopy copyrightString++rest

theorem blockBytes_eq : blockBytes block=emitAes (inout (unpack block)) := by
  simp [blockBytes,emitAes,inout,unpack_eq_extractLsb,range_succ]

theorem pass_eq {tables : Tables} {chance : Chance} {pkt : Packet} {rest : List Byte} {routed : Routed}
    (hparse : parse pkt=some (hdr,rest)) (hingress : switchIngress tables chance ingressPort hdr=some routed) :
    pass tables chance ingressPort pkt = some (routed.ucastEgressPort,deparse routed.hdr rest) := by
  rw [pass,hparse]
  simp [hingress]
section
variable (key block : BitVec 128) (totalLen udpTotalLen : BitVec 16) (rest : List Byte) (chance : Chance)
theorem pass_first (ingressPort : BitVec 9) (checksum : BitVec 16) : pass (addEverything key) chance ingressPort
        (cleartext block totalLen udpTotalLen checksum rest) =
      some (rndPort chance,deparse (headersIn key block totalLen udpTotalLen (ingressPort.setWidth 16) 1) rest) := by
  have hparse : parse (cleartext block totalLen udpTotalLen checksum rest) =
      some (⟨totalLen,some ⟨aesPort,udpTotalLen,checksum⟩,
        some (inout (beforeKey key block (2*0))),none,none⟩,rest) := by
    simp [parse,cleartext,blockBytes_eq,beforeKey]
  exact pass_eq hparse (switchIngress_recirc (by decide) chance rfl rfl rfl)
variable (destPort : BitVec 16)
theorem parse_headersIn (p : Nat) : parse (deparse (headersIn key block totalLen udpTotalLen destPort p) rest) =
      some (headersIn key block totalLen udpTotalLen destPort p,rest) :=
  parse_deparse rest rfl rfl rfl rfl rfl
variable (ingressPort : BitVec 9)
theorem pass_recirc {p : Nat} (hp : p<4) : pass (addEverything key) chance ingressPort
        (deparse (headersIn key block totalLen udpTotalLen destPort p) rest) =
      some (rndPort chance,deparse (headersIn key block totalLen udpTotalLen destPort (p+1)) rest) :=
  pass_eq (parse_headersIn key block totalLen udpTotalLen rest destPort p) (switchIngress_recirc hp chance rfl rfl rfl)

theorem pass_last : pass (addEverything key) chance ingressPort
        (deparse (headersIn key block totalLen udpTotalLen destPort 4) rest) =
      some (destPort.setWidth 9,ciphertext (aes128 key block) rest) := by
  have hingress : switchIngress (addEverything key) chance ingressPort
      (headersIn key block totalLen udpTotalLen destPort 4)=_ :=
    switchIngress_last chance rfl rfl rfl
  rw [pass_eq (parse_headersIn key block totalLen udpTotalLen rest destPort 4) hingress,ciphertext,blockBytes_eq]
  simp [deparse,doNotRecirc,headersIn]

theorem process_headersIn (chance : Nat → Chance) (port : FrontPort) (fuel : Nat) {k : Nat}
    (hk : k≤3) (ingressPort : BitVec 9) :
    process (addEverything key) chance (fuel+(k+1)) (4-k) ingressPort
        (deparse (headersIn key block totalLen udpTotalLen (port.port.setWidth 16) (4-k)) rest) =
      some (4,port.port,ciphertext (aes128 key block) rest) := by
  induction k generalizing ingressPort with
  | zero =>
    have hport : (port.port.setWidth 16).setWidth 9=port.port := by
      rw [setWidth_setWidth_of_le _ (by decide),setWidth_eq]
    rw [process,pass_last,hport]
    exact if_neg port.not_recirc
  | succ k ih =>
    have hnext : 4-(k+1)+1=4-k := by omega
    rw [← Nat.add_assoc,process,pass_recirc key block totalLen udpTotalLen rest _ _ _ (by omega),hnext]
    exact (if_pos (isRecirc_rndPort _)).trans (ih (by omega) _)
end

/-- For every key and block: the packet leaves through the port it came from after exactly four
recirculations, and carries the AES-128 encryption of the block. -/
theorem process_aes128 (key block : BitVec 128) (totalLen udpTotalLen checksum : BitVec 16)
    (rest : List Byte) (chance : Nat → Chance) (port : FrontPort) (fuel : Nat) :
    process (addEverything key) chance (fuel+5) 0 port.port (cleartext block totalLen udpTotalLen checksum rest) =
      some (4,port.port,ciphertext (aes128 key block) rest) := by
  rw [process,pass_first]
  exact (if_pos (isRecirc_rndPort _)).trans
    (process_headersIn key block totalLen udpTotalLen rest chance port fuel le_rfl _)

/-- The key and the block of FIPS 197, through port 3 and with two more bytes in the packet. -/
theorem process_port3 : process (addEverything 0x000102030405060708090a0b0c0d0e0f) (fun _ => ⟨0,fun _ _ => 0⟩) 5 0 3
      (cleartext 0x00112233445566778899aabbccddeeff 60 40 0 [1,2]) =
    some (4,3,ciphertext (aes128 0x000102030405060708090a0b0c0d0e0f 0x00112233445566778899aabbccddeeff) [1,2]) :=
  process_aes128 _ _ 60 40 0 [1,2] _ ⟨3,by decide⟩ 0
end P4Benchmarks.AesTofino
