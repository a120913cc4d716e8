import P4Benchmarks.Marple.Linear
/-!
# Histories under predicates

A `PredHist` gives a history to disjoint parts of the tree of branches; it means the history of each
leaf, a full sequence of branch decisions.
-/
namespace P4Benchmarks.Marple
open List Bool
/-- A node of the predicate tree, named by the branches that lead to it, the innermost first.  The
source numbers its nodes, but only ever compares the numbers. -/
abbrev PredNode := List Bool
namespace PredTree
def isAncestor (a : PredNode) : PredNode → Bool
  | [] => false
  | _::c => a==c || isAncestor a c

def intersect (a b : PredNode) : Option PredNode :=
  if isAncestor a b then some b
  else if isAncestor b a then some a
  else if a=b then some a
  else none

def getFrontierNodes (ancestor : PredNode) : PredNode → List PredNode
  | [] => []
  | b::c => if b::c=ancestor then [] else ((!b)::c)::getFrontierNodes ancestor c

def getLeastAncestorInSet (nodeSet : List PredNode) : PredNode → Option PredNode
  | [] => if [] ∈ nodeSet then some [] else none
  | b::c => if b::c ∈ nodeSet then some (b::c) else getLeastAncestorInSet nodeSet c

def adjustCoverSet (coverSet : List PredNode) (pred : PredNode) : Except JavaError (List PredNode) :=
  match getLeastAncestorInSet coverSet pred with
  | none => .error .runtime
  | some leastAncestor => .ok ((coverSet++getFrontierNodes leastAncestor pred).filter (· ≠ leastAncestor))
end PredTree

abbrev PredHist := List (PredNode × Int)
namespace PredHist
open PredTree
/-- The part of a history under `outerPredId`, and what of `coveringPreds` it leaves uncovered. -/
def relevantEntries (outerPredId : PredNode) : PredHist → List PredNode → Except JavaError (PredHist × List PredNode)
  | [], coveringPreds => .ok ([],coveringPreds)
  | (predId,hist)::rest, coveringPreds =>
    match intersect predId outerPredId with
    | none => relevantEntries outerPredId rest coveringPreds
    | some intersection => do
      let coveringPreds ← adjustCoverSet coveringPreds intersection
      let (relevant,coveringPreds) ← relevantEntries outerPredId rest coveringPreds
      .ok ((intersection,hist)::relevant,coveringPreds)

def getRelevantPredHist (hists : PredHist) (outerPredId : PredNode)
    (defaultHist defaultNoHistoryExists : Int) : Except JavaError PredHist := do
  let (relevant,coveringPreds) ← relevantEntries outerPredId hists [outerPredId]
  if coveringPreds=[] then .ok relevant
  else if defaultHist=defaultNoHistoryExists then .error .assertion
  else .ok (relevant++coveringPreds.map fun covering => (covering,defaultHist))

/-- The inner loop of `compareHist`: put one new entry into the old ones.  Also returns what the
old entries do not cover of the new one. -/
def compareEntries (op : Int → Int → Int) (newPred : PredNode) (newVal : Int) :
    PredHist → List PredNode → Except JavaError (PredHist × List PredNode)
  | [], coverNew => .ok ([],coverNew)
  | (oldPred,oldVal)::rest, coverNew =>
    let newHistVal := op oldVal newVal
    if oldPred=newPred then do
      let (hists,coverNew) ← compareEntries op newPred newVal rest []
      .ok ((oldPred,newHistVal)::hists,coverNew)
    else if isAncestor newPred oldPred then do
      let coverNew ← adjustCoverSet coverNew oldPred
      let (hists,coverNew) ← compareEntries op newPred newVal rest coverNew
      .ok ((oldPred,newHistVal)::hists,coverNew)
    else if isAncestor oldPred newPred then do
      -- break up the old entry; the new one is then covered completely and the loop ends
      let coverOld ← adjustCoverSet [oldPred] newPred
      .ok ((newPred,newHistVal)::(coverOld.map fun cover => (cover,oldVal))++rest,[])
    else do
      let (hists,coverNew) ← compareEntries op newPred newVal rest coverNew
      .ok ((oldPred,oldVal)::hists,coverNew)

def compareHist (op : Int → Int → Int) : PredHist → PredHist → Except JavaError PredHist
  | hists, [] => .ok hists
  | hists, (newPred,newVal)::rest => do
    let (hists,coverNew) ← compareEntries op newPred newVal hists [newPred]
    compareHist op (hists++coverNew.map fun cover => (cover,newVal)) rest

def setHist (hists p : PredHist) : Except JavaError PredHist := compareHist (fun _ b => b) hists p
def getMaxHist (p₁ p₂ : PredHist) : Except JavaError PredHist := compareHist max p₁ p₂
def squash (hists : PredHist) : Int := (hists.map Prod.snd).foldl max 0
end PredHist

abbrev Leaf := Nat → Bool

def covers : PredNode → Leaf → Bool
  | [], _ => true
  | b::c, l => l c.length==b&&covers c l
variable (nodes : List PredNode)
def coverCount (l : Leaf) : Nat := nodes.countP fun k => covers k l

@[simp] theorem coverCount_nil (l : Leaf) : coverCount [] l=0 := rfl
theorem coverCount_append (xs ys : List PredNode) (l : Leaf) : coverCount (xs++ys) l=coverCount xs l+coverCount ys l :=
  countP_append

theorem coverCount_cons (k : PredNode) (ks : List PredNode) (l : Leaf) :
    coverCount (k::ks) l=coverCount ks l + if covers k l then 1 else 0 :=
  countP_cons
namespace PredTree
variable {a c : PredNode}
theorem isAncestor_cons {b : Bool} : isAncestor a (b::c) ↔ a=c ∨ isAncestor a c := by simp [isAncestor]

theorem length_lt_of_isAncestor (h : isAncestor a c) : a.length < c.length := by
  induction c with
  | nil => cases h
  | cons b c ih =>
    rcases isAncestor_cons.mp h with rfl | h
    · simp
    · have hlt := ih h
      simp only [length_cons]
      omega

theorem covers_of_isAncestor {l : Leaf} (h : isAncestor a c) (hc : covers c l) : covers a l := by
  induction c with
  | nil => cases h
  | cons b c ih =>
    have hc' : covers c l := by
      simp only [covers,and_eq_true] at hc
      exact hc.2
    rcases isAncestor_cons.mp h with rfl | h
    · exact hc'
    · exact ih h hc'

theorem eq_or_isAncestor {l : Leaf} (ha : covers a l) (hc : covers c l) : a=c ∨ isAncestor a c ∨ isAncestor c a := by
  induction c generalizing a with
  | nil =>
    cases a with
    | nil => exact .inl rfl
    | cons b a =>
      have hroot : ∀ (b : Bool) (a : PredNode), isAncestor [] (b::a) := by
        intro b a
        induction a generalizing b with
        | nil => rfl
        | cons b' a ih => exact isAncestor_cons.mpr (.inr (ih b'))
      exact .inr (.inr (hroot b a))
  | cons b c ih =>
    simp only [covers,and_eq_true,beq_iff_eq] at hc
    rcases ih ha hc.2 with rfl | h | h
    · exact .inr (.inl (isAncestor_cons.mpr (.inl rfl)))
    · exact .inr (.inl (isAncestor_cons.mpr (.inr h)))
    · -- `a` lies under `c`, on the side that the leaf takes
      induction a with
      | nil => cases h
      | cons b' a ih =>
        simp only [covers,and_eq_true,beq_iff_eq] at ha
        rcases isAncestor_cons.mp h with rfl | h
        · exact .inl (by rw [← ha.1,← hc.1])
        · rcases ih ha.2 h with heq | h | h
          · exact .inr (.inr (isAncestor_cons.mpr (.inl heq.symm)))
          · have h₁ := length_lt_of_isAncestor h
            have h₂ := length_lt_of_isAncestor ‹isAncestor c a›
            simp only [length_cons] at h₁
            omega
          · exact .inr (.inr (isAncestor_cons.mpr (.inr h)))

theorem length_lt_of_mem_frontier {a k m : PredNode} (h : a=k ∨ isAncestor a k)
    (hm : m ∈ getFrontierNodes a k) : a.length < m.length := by
  induction k with
  | nil => cases hm
  | cons b c ih =>
    rw [getFrontierNodes] at hm
    split_ifs at hm with heq
    · cases hm
    · have hc : a=c ∨ isAncestor a c := by
        rcases h with rfl | h
        · exact absurd rfl heq
        · exact isAncestor_cons.mp h
      rcases mem_cons.mp hm with rfl | hm
      · have hle : a.length ≤ c.length := by
          rcases hc with rfl | hc
          · exact Nat.le_refl _
          · exact Nat.le_of_lt (length_lt_of_isAncestor hc)
        simp only [length_cons]
        omega
      · exact ih hc hm

theorem coverCount_frontier {a k : PredNode} (h : a=k ∨ isAncestor a k) (l : Leaf) :
    coverCount (getFrontierNodes a k) l = if covers a l&&!covers k l then 1 else 0 := by
  induction k with
  | nil =>
    rcases h with rfl | h
    · simp [getFrontierNodes,covers]
    · cases h
  | cons b c ih =>
    rw [getFrontierNodes]
    by_cases heq : b::c=a
    · simp [heq]
    · rw [if_neg heq]
      have hc : a=c ∨ isAncestor a c := by
        rcases h with rfl | h
        · exact absurd rfl heq
        · exact isAncestor_cons.mp h
      have hup : covers c l → covers a l := by
        rcases hc with rfl | hc
        · exact id
        · exact covers_of_isAncestor hc
      rw [coverCount_cons,ih hc]
      by_cases hcl : covers c l
      · by_cases hl : l c.length=b
        · simp [covers,hcl,hl,hup hcl]
        · have hl' : l c.length = !b := by cases b <;> simpa using hl
          simp [covers,hcl,hl',hup hcl]
      · simp [covers,hcl]

theorem getLeastAncestorInSet_eq_some {nodes : List PredNode} {k a : PredNode}
    (h : getLeastAncestorInSet nodes k=some a) : a ∈ nodes ∧ (a=k ∨ isAncestor a k) := by
  induction k with
  | nil =>
    rw [getLeastAncestorInSet] at h
    split_ifs at h with hmem
    cases h
    exact ⟨hmem,.inl rfl⟩
  | cons b c ih =>
    rw [getLeastAncestorInSet] at h
    split_ifs at h with hmem
    · cases h
      exact ⟨hmem,.inl rfl⟩
    · obtain ⟨hmem,hup⟩ := ih h
      exact ⟨hmem,.inr (isAncestor_cons.mpr hup)⟩

theorem coverCount_filter_ne {nodes : List PredNode} {a : PredNode} (ha : a ∈ nodes) {l : Leaf}
    (hdisj : coverCount nodes l≤1) :
    coverCount (nodes.filter (· ≠ a)) l+(if covers a l then 1 else 0)=coverCount nodes l := by
  induction nodes with
  | nil => cases ha
  | cons k ks ih =>
    rw [coverCount_cons] at hdisj ⊢
    by_cases hka : k=a
    · subst hka
      rw [filter_cons_of_neg (by simp)]
      have hrest : coverCount (ks.filter (· ≠ k)) l=coverCount ks l := by
        by_cases hmem : k ∈ ks
        · have h := ih hmem (by omega)
          by_cases hk : covers k l
          · omega
          · simpa [hk] using h
        · rw [filter_eq_self.mpr]
          intro m hm
          simp only [ne_eq,decide_not,not_eq_true',decide_eq_false_iff_not]
          rintro rfl
          exact hmem hm
      rw [hrest]
    · have hmem : a ∈ ks := (mem_cons.mp ha).resolve_left (Ne.symm hka)
      rw [filter_cons_of_pos (by simpa using hka),coverCount_cons]
      have h := ih hmem (by omega)
      omega

theorem adjustCoverSet_spec {nodes nodes' : List PredNode} {pred : PredNode}
    (h : adjustCoverSet nodes pred=.ok nodes') {l : Leaf} (hdisj : coverCount nodes l≤1) :
    coverCount nodes' l+(if covers pred l then 1 else 0)=coverCount nodes l := by
  unfold adjustCoverSet at h
  cases hleast : getLeastAncestorInSet nodes pred with
  | none =>
    rw [hleast] at h
    cases h
  | some a =>
    rw [hleast] at h
    cases h
    obtain ⟨hmem,hup⟩ := getLeastAncestorInSet_eq_some hleast
    have hfrontier : (getFrontierNodes a pred).filter (· ≠ a)=getFrontierNodes a pred := by
      rw [filter_eq_self]
      intro m hm
      have hlt := length_lt_of_mem_frontier hup hm
      simp only [ne_eq,decide_not,not_eq_true',decide_eq_false_iff_not]
      rintro rfl
      omega
    have hcover : covers pred l → covers a l := by
      rcases hup with rfl | hup
      · exact id
      · exact covers_of_isAncestor hup
    rw [filter_append,hfrontier,coverCount_append,coverCount_frontier hup]
    have hremove := coverCount_filter_ne hmem hdisj
    cases hp : covers pred l with
    | true =>
      rw [hcover hp] at hremove ⊢
      simpa using hremove
    | false => cases ha : covers a l <;> simp [ha] at hremove ⊢ <;> omega
end PredTree
namespace PredHist
open PredTree
variable (hists : PredHist) (l : Leaf)
def vals : List Int := hists.filterMap fun e => if covers e.1 l then some e.2 else none
def at? : Option Int := (hists.vals l).head?
def IsDisjoint : Prop := ∀ l, (hists.vals l).length≤1

@[simp] theorem vals_nil : vals [] l=[] := rfl
theorem vals_cons (k : PredNode) (v : Int) (hists : PredHist) (l : Leaf) :
    vals ((k,v)::hists) l=(if covers k l then [v] else [])++hists.vals l := by
  cases hk : covers k l <;> simp [vals,hk]

theorem vals_append (xs ys : PredHist) (l : Leaf) : vals (xs++ys) l=xs.vals l++ys.vals l := filterMap_append

theorem vals_map_const (v : Int) (l : Leaf) : vals (nodes.map fun k => (k,v)) l=replicate (coverCount nodes l) v := by
  induction nodes with
  | nil => rfl
  | cons k ks ih =>
    rw [map_cons,vals_cons,ih,coverCount_cons]
    cases covers k l
    · simp
    · rfl

theorem vals_eq_toList {hists : PredHist} (h : hists.IsDisjoint) (l : Leaf) : hists.vals l=(hists.at? l).toList := by
  have hlen := h l
  unfold at?
  cases hv : hists.vals l with
  | nil => rfl
  | cons v vs =>
    rw [hv,length_cons] at hlen
    have hvs : vs=[] := length_eq_zero_iff.mp (by omega)
    rw [hvs]
    rfl

theorem intersect_eq_some {a b c : PredNode} (h : intersect a b=some c) (l : Leaf) :
    covers c l=(covers a l&&covers b l) := by
  unfold intersect at h
  split_ifs at h with hab hba heq
  · cases h
    cases hb : covers b l with
    | false => simp
    | true => simp [covers_of_isAncestor hab hb]
  · cases h
    cases ha : covers a l with
    | false => simp
    | true => simp [covers_of_isAncestor hba ha]
  · cases h
    simp [heq]

theorem intersect_eq_none {a b : PredNode} (h : intersect a b=none) (l : Leaf) : (covers a l&&covers b l)=false := by
  unfold intersect at h
  split_ifs at h with hab hba heq
  by_contra hboth
  simp only [not_eq_false,and_eq_true] at hboth
  rcases eq_or_isAncestor hboth.1 hboth.2 with h | h | h
  · exact heq h
  · exact hab h
  · exact hba h
variable {hists out : PredHist}
theorem relevantEntries_spec {outer : PredNode}
    {cover cover' : List PredNode} (h : relevantEntries outer hists cover=.ok (out,cover'))
    {l : Leaf} (hcover : coverCount cover l≤1) :
    out.vals l=(if covers outer l then hists.vals l else []) ∧
      coverCount cover' l+(out.vals l).length=coverCount cover l := by
  induction hists generalizing out cover with
  | nil =>
    obtain ⟨rfl,rfl⟩ : out=[] ∧ cover'=cover := by simpa [relevantEntries,eq_comm] using h
    simp
  | cons e rest ih =>
    obtain ⟨k,v⟩ := e
    rw [relevantEntries] at h
    cases hint : intersect k outer with
    | none =>
      rw [hint] at h
      have hk := intersect_eq_none hint l
      obtain ⟨hvals,hcount⟩ := ih h hcover
      refine ⟨?_,hcount⟩
      rw [hvals,vals_cons]
      cases houter : covers outer l with
      | false => simp
      | true =>
        rw [houter,Bool.and_true] at hk
        simp [hk]
    | some i =>
      rw [hint] at h
      obtain ⟨mid,hmid,h⟩ := bind_eq_ok h
      obtain ⟨⟨es,cover''⟩,hes,h⟩ := bind_eq_ok h
      obtain ⟨rfl,rfl⟩ : (i,v)::es=out ∧ cover''=cover' := by simpa using h
      have hadjust := adjustCoverSet_spec hmid hcover
      obtain ⟨hvals,hcount⟩ := ih hes (by omega)
      have hi := intersect_eq_some hint l
      rw [vals_cons,vals_cons,hvals,hi]
      rw [hvals] at hcount
      rw [hi] at hadjust
      cases houter : covers outer l <;> cases hk : covers k l <;> simp [houter,hk] at hadjust hcount ⊢ <;> omega

theorem getRelevantPredHist_spec {outer : PredNode} {d n : Int}
    (h : hists.getRelevantPredHist outer d n=.ok out) (l : Leaf) :
    out.vals l=(if covers outer l then [(hists.at? l).getD d] else []) ∧
      (d=n → covers outer l → (hists.at? l).isSome) := by
  obtain ⟨⟨es,cover⟩,hes,h⟩ := bind_eq_ok h
  have houter : coverCount [outer] l = if covers outer l then 1 else 0 := by
    rw [coverCount_cons,coverCount_nil,Nat.zero_add]
  obtain ⟨hvals,hcount⟩ := relevantEntries_spec hes (l := l) (by rw [houter]; split <;> omega)
  rw [houter,hvals] at hcount
  unfold at?
  dsimp only at h
  split_ifs at h with hempty hdn
  · cases h
    rw [hempty,coverCount_nil] at hcount
    rw [hvals]
    cases hl : covers outer l with
    | false => simp
    | true =>
      simp only [hl,if_true,Nat.zero_add] at hcount ⊢
      obtain ⟨v,hv⟩ := length_eq_one_iff.mp hcount
      simp [hv]
  · cases h
    refine ⟨?_,fun heq => absurd heq hdn⟩
    rw [vals_append,vals_map_const,hvals]
    cases hl : covers outer l with
    | false =>
      have hzero : coverCount cover l=0 := by simpa [hl] using hcount
      simp [hzero]
    | true =>
      simp only [hl,if_true] at hcount ⊢
      cases hv : hists.vals l with
      | nil =>
        have hone : coverCount cover l=1 := by simpa [hv] using hcount
        simp [hone]
      | cons v vs =>
        rw [hv,length_cons] at hcount
        have hzero : coverCount cover l=0 := by omega
        have hvs : vs=[] := length_eq_zero_iff.mp (by omega)
        simp [hzero,hvs]

/-- What the inner loop does to one leaf: an old history under the new node is combined with the
new one, and the cover keeps the leaves without an old history. -/
theorem compareEntries_spec {op : Int → Int → Int} {newPred : PredNode} {newVal : Int} {cover cover' : List PredNode}
    (h : compareEntries op newPred newVal hists cover=.ok (out,cover')) {l : Leaf}
    (hdisj : (hists.vals l).length≤1) (hcover : coverCount cover l≤1)
    (hsub : 0 < coverCount cover l → covers newPred l) :
    out.vals l=(hists.vals l).map (fun v => if covers newPred l then op v newVal else v) ∧
      coverCount cover' l = if hists.vals l=[] then coverCount cover l else 0 := by
  induction hists generalizing out cover with
  | nil =>
    obtain ⟨rfl,rfl⟩ : out=[] ∧ cover'=cover := by simpa [compareEntries,eq_comm] using h
    simp
  | cons e rest ih =>
    obtain ⟨k,v⟩ := e
    rw [vals_cons] at hdisj ⊢
    have hrest : (vals rest l).length≤1 := by
      rw [length_append] at hdisj
      omega
    rw [compareEntries] at h
    split_ifs at h with heq hdown hup
    · subst heq
      obtain ⟨⟨es,cover''⟩,hes,h⟩ := bind_eq_ok h
      obtain ⟨rfl,rfl⟩ : (k,op v newVal)::es=out ∧ cover''=cover' := by simpa using h
      obtain ⟨hvals,hcount⟩ := ih hes hrest (by simp) (by simp)
      have hnone : covers k l=false → coverCount cover l=0 := by
        intro hk
        by_contra hpos
        rw [hsub (by omega)] at hk
        cases hk
      rw [vals_cons,hvals,hcount]
      cases hk : covers k l with
      | true => simp
      | false => simp [hnone hk]
    · obtain ⟨mid,hmid,h⟩ := bind_eq_ok h
      obtain ⟨⟨es,cover''⟩,hes,h⟩ := bind_eq_ok h
      obtain ⟨rfl,rfl⟩ : (k,op v newVal)::es=out ∧ cover''=cover' := by simpa using h
      have hadjust := adjustCoverSet_spec hmid hcover
      obtain ⟨hvals,hcount⟩ := ih hes hrest (by omega) (fun hpos => hsub (by omega))
      rw [vals_cons,hvals,hcount]
      cases hk : covers k l with
      | true =>
        have hzero : coverCount mid l=0 := by
          rw [hk,if_pos rfl] at hadjust
          omega
        simp [covers_of_isAncestor hdown hk,hzero]
      | false =>
        have hsame : coverCount mid l=coverCount cover l := by simpa [hk] using hadjust
        simp [hsame]
    · obtain ⟨pieces,hpieces,h⟩ := bind_eq_ok h
      obtain ⟨rfl,rfl⟩ : (newPred,op v newVal) :: ((pieces.map fun cover => (cover,v))++rest)=out ∧ []=cover' := by
        simpa using h
      have hone : coverCount [k] l = if covers k l then 1 else 0 := by rw [coverCount_cons,coverCount_nil,Nat.zero_add]
      have hadjust := adjustCoverSet_spec hpieces (l := l) (by rw [hone]; split <;> omega)
      rw [hone] at hadjust
      rw [vals_cons,vals_append,vals_map_const]
      cases hnew : covers newPred l with
      | true =>
        have hk := covers_of_isAncestor hup hnew
        have hzero : coverCount pieces l=0 := by simpa [hk,hnew] using hadjust
        have hnil : vals rest l=[] := by
          rw [hk,if_pos rfl,length_append,length_singleton] at hdisj
          exact length_eq_zero_iff.mp (by omega)
        simp [hk,hzero,hnil]
      | false =>
        have hcount : coverCount cover l=0 := by
          by_contra hpos
          rw [hsub (by omega)] at hnew
          cases hnew
        cases hk : covers k l with
        | true =>
          have hpiece : coverCount pieces l=1 := by simpa [hk,hnew] using hadjust
          simp [hpiece]
        | false =>
          have hpiece : coverCount pieces l=0 := by simpa [hk,hnew] using hadjust
          simp [hpiece,hcount]
    · obtain ⟨⟨es,cover''⟩,hes,h⟩ := bind_eq_ok h
      obtain ⟨rfl,rfl⟩ : (k,v)::es=out ∧ cover''=cover' := by simpa using h
      obtain ⟨hvals,hcount⟩ := ih hes hrest hcover hsub
      rw [vals_cons,hvals,hcount]
      cases hk : covers k l with
      | false => simp
      | true =>
        have hnew : covers newPred l=false := by
          by_contra hnew
          rcases eq_or_isAncestor hk (not_eq_false _ ▸ hnew) with h | h | h
          · exact heq h
          · exact hup h
          · exact hdown h
        have hcount : coverCount cover l=0 := by
          by_contra hpos
          rw [hsub (by omega)] at hnew
          cases hnew
        simp [hnew,hcount]

theorem compareHist_spec {op : Int → Int → Int} {hists p out : PredHist}
    (h : compareHist op hists p=.ok out) (hhists : hists.IsDisjoint) (hp : p.IsDisjoint) :
    out.IsDisjoint ∧ ∀ l, out.at? l=Option.merge op (hists.at? l) (p.at? l) := by
  induction p generalizing hists with
  | nil =>
    obtain rfl := Except.ok.inj h
    refine ⟨hhists,fun l => ?_⟩
    cases h : hists.at? l <;> simp [at?,Option.merge]
  | cons e rest ih =>
    obtain ⟨k,v⟩ := e
    obtain ⟨⟨es,cover⟩,hes,h⟩ := bind_eq_ok h
    have hrest : IsDisjoint rest := by
      intro l
      have hl := hp l
      rw [vals_cons,length_append] at hl
      omega
    -- the histories after the new entry has been put in
    have hmid (l : Leaf) : vals (es++cover.map fun c => (c,v)) l =
        if covers k l then [((hists.at? l).map (op · v)).getD v] else hists.vals l := by
      have hone : coverCount [k] l = if covers k l then 1 else 0 := by rw [coverCount_cons,coverCount_nil,Nat.zero_add]
      obtain ⟨hvals,hcount⟩ := compareEntries_spec hes (hhists l) (by rw [hone]; split <;> omega)
        (by rw [hone]; split <;> simp_all)
      rw [vals_append,vals_map_const,hvals,hcount,hone,vals_eq_toList hhists]
      cases hk : covers k l <;> cases ha : hists.at? l <;> simp
    have hmidDisj : IsDisjoint (es++cover.map fun c => (c,v)) := by
      intro l
      rw [hmid]
      split
      · simp
      · exact hhists l
    obtain ⟨hout,hat⟩ := ih h hmidDisj hrest
    refine ⟨hout,fun l => ?_⟩
    rw [hat]
    have hpl := hp l
    unfold at? at *
    rw [hmid,vals_cons]
    rw [vals_cons,length_append] at hpl
    cases hk : covers k l with
    | false => simp
    | true =>
      have hnil : vals rest l=[] := by
        rw [hk,if_pos rfl,length_singleton] at hpl
        exact length_eq_zero_iff.mp (by omega)
      cases ha : (hists.vals l).head? <;> simp [hnil,Option.merge]
end PredHist
end P4Benchmarks.Marple
