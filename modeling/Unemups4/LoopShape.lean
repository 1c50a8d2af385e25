import Unemups4.CfgBlocks
import Unemups4.FlowGraph

/-! The shape of the loops `validateLoops` lets through. A span of blocks is a
structured loop when its header dominates it, is its only entry, and its merge is its
only exit; the check looks at the conditional branches of the span and at backward
branches, so a forward branch can still jump into or out of the middle. -/
namespace Unemups4.Gcn
open Fallible FlowGraph

def Terminator.targets : Terminator → List ℕ
  | .fallthrough target => [target]
  | .branch target => [target]
  | .cond _ taken fall => [taken,fall]
  | .ret => []

/-- Block `j` is a successor of block `i`. -/
def Cfg.Edge (cfg : Cfg) (i j : ℕ) : Prop :=
  ∃ b c, cfg.blocks[i]? = some b ∧ cfg.blocks[j]? = some c ∧ c.start ∈ b.terminator.targets

/-- The blocks `[hi, bi]` form a single-entry single-exit loop. -/
structure StructuredLoop (cfg : Cfg) (hi bi : ℕ) (li : LoopInfo) : Prop where
  dominates : ∀ k ∈ Set.Icc hi bi, Dominates cfg.Edge 0 hi k
  entry : ∀ i j, cfg.Edge i j → i ∉ Set.Icc hi bi → j ∈ Set.Icc hi bi → j = hi
  exit : ∀ i j, cfg.Edge i j → i ∈ Set.Icc hi bi → j ∉ Set.Icc hi bi →
    cfg.blockIndexAt li.merge = some j

/-- No branch before a back-edge's target jumps past it into the loop, and no
`s_branch` of the loop jumps past the instruction after the back-edge. -/
def LoopClear (insts : List Decoded) : Prop :=
  ∀ d ∈ live insts, ∀ op c t, classifyTerminator d = some (.cond op c t) → t ≤ d.offsetDwords →
    (∀ e ∈ live insts, ∀ u, branchOf e = some u → (e.offsetDwords : ℤ) < t →
      t < u → (d.offsetDwords : ℤ) < u) ∧
    (∀ e ∈ live insts, ∀ u, classifyTerminator e = some (.uncond u) → t ≤ e.offsetDwords →
      e.offsetDwords ≤ d.offsetDwords → u ≤ d.offsetDwords+d.sizeDwords)

lemma validateLoopsFrom_ok {cfg : Cfg} {bis : List ℕ} {n : ℕ} {u : Unit}
    (h : validateLoopsFrom cfg bis n = .ok u) {bi : ℕ} (hbi : bi ∈ bis) {li : LoopInfo}
    (hli : cfg.loopOf bi = some li) :
    n = 0 ∧ cfg.blockIndexAt li.header ≠ some 0 ∧ (∃ m, cfg.blockIndexAt li.merge = some m) ∧
      hasInnerCond cfg bi li = false := by
  induction bis generalizing n with
  | nil => simp at hbi
  | cons c bis ih =>
    unfold validateLoopsFrom at h
    rcases List.mem_cons.mp hbi with rfl | hmem
    · simp only [hli] at h
      split_ifs at h with hn hzero hmerge hinner
      refine ⟨by omega,hzero,?_,by simpa using hinner⟩
      exact Option.ne_none_iff_exists'.mp (by simpa using hmerge)
    · split at h
      · exact ih h hmem
      · split_ifs at h
        have := (ih h hmem).1
        omega

lemma validateLoopsFrom_unique {cfg : Cfg} {bis : List ℕ} {n : ℕ} {u : Unit}
    (h : validateLoopsFrom cfg bis n = .ok u) {i j : ℕ} (hi : i ∈ bis) (hj : j ∈ bis)
    {li lj : LoopInfo} (hli : cfg.loopOf i = some li) (hlj : cfg.loopOf j = some lj) : i = j := by
  induction bis generalizing n with
  | nil => simp at hi
  | cons c bis ih =>
    unfold validateLoopsFrom at h
    split at h
    · rename_i hc
      have hi' : i ∈ bis := by
        rcases List.mem_cons.mp hi with rfl | hi
        · simp [hc] at hli
        · exact hi
      have hj' : j ∈ bis := by
        rcases List.mem_cons.mp hj with rfl | hj
        · simp [hc] at hlj
        · exact hj
      exact ih h hi' hj'
    · split_ifs at h
      -- a later back-edge would be counted as the second one
      have hlast : ∀ k lk, k ∈ bis → cfg.loopOf k = some lk → False := by
        intro k lk hk hlk
        have := (validateLoopsFrom_ok h hk hlk).1
        omega
      rcases List.mem_cons.mp hi with rfl | hi
      · rcases List.mem_cons.mp hj with rfl | hj
        · rfl
        · exact (hlast j lj hj hlj).elim
      · exact (hlast i li hi hli).elim

/-- What `validateLoops` guarantees of a block graph. -/
structure LoopsChecked (cfg : Cfg) : Prop where
  forward : ∀ b ∈ cfg.blocks, ∀ t, b.terminator = .branch t → b.start < t
  header : ∀ bi li, cfg.loopOf bi = some li → cfg.blockIndexAt li.header ≠ some 0
  merge : ∀ bi li, cfg.loopOf bi = some li → ∃ m, cfg.blockIndexAt li.merge = some m
  inner : ∀ bi li, cfg.loopOf bi = some li → ∀ (k : ℕ) (b : BasicBlock),
    cfg.blocks[k]? = some b → li.header ≤ b.start → b.start ≤ li.backEdgeBlock → k ≠ bi →
    isCond b = false
  unique : ∀ i j li lj, cfg.loopOf i = some li → cfg.loopOf j = some lj → i = j

lemma loopOf_lt {cfg : Cfg} {bi : ℕ} {li : LoopInfo} (h : cfg.loopOf bi = some li) :
    bi < cfg.blocks.length := by
  unfold Cfg.loopOf at h
  split at h
  · rename_i hb
    exact (List.getElem?_eq_some_iff.mp hb).1
  · cases h

theorem validateLoops_checked {cfg : Cfg} {u : Unit} (h : validateLoops cfg = .ok u) :
    LoopsChecked cfg := by
  unfold validateLoops at h
  have hfind : cfg.blocks.find? backwardBranch = none := by
    cases hf : cfg.blocks.find? backwardBranch with
    | none => rfl
    | some b =>
      have hback := List.find?_some hf
      obtain ⟨start,insts,term⟩ := b
      cases term <;> simp_all [backwardBranch]
  have hfrom : validateLoopsFrom cfg (List.range cfg.blocks.length) 0 = .ok u := by
    simpa [hfind] using h
  have hmem : ∀ {bi li}, cfg.loopOf bi = some li → bi ∈ List.range cfg.blocks.length :=
    fun hli => List.mem_range.mpr (loopOf_lt hli)
  refine ⟨?_,?_,?_,?_,?_⟩
  · intro b hb t ht
    have := List.find?_eq_none.mp hfind b hb
    simp only [backwardBranch, ht, decide_eq_true_eq] at this
    omega
  · intro bi li hli
    exact (validateLoopsFrom_ok hfrom (hmem hli) hli).2.1
  · intro bi li hli
    exact (validateLoopsFrom_ok hfrom (hmem hli) hli).2.2.1
  · intro bi li hli k b hb hlo hhi hk
    have hinner := (validateLoopsFrom_ok hfrom (hmem hli) hli).2.2.2
    have hbk : (b,k) ∈ cfg.blocks.zipIdx := List.mk_mem_zipIdx_iff_getElem?.mpr hb
    have := List.any_eq_false.mp hinner (b,k) hbk
    simpa [hlo, hhi, hk] using this
  · intro i j li lj hli hlj
    exact validateLoopsFrom_unique hfrom (hmem hli) (hmem hlj) hli hlj

lemma branchOf_uncond {d : Decoded} {t : ℤ} (h : classifyTerminator d = some (.uncond t)) :
    branchOf d = some t := by
  simp [branchOf, h]

lemma branchOf_cond {d : Decoded} {op : SoppOp} {c : Option BranchCond} {t : ℤ}
    (h : classifyTerminator d = some (.cond op c t)) : branchOf d = some t := by
  simp [branchOf, h]

lemma blockTerminator_cases {s : List Decoded} {i : ℕ} {d : Decoded} {next : Option ℕ}
    {term : Terminator} (h : blockTerminator s i d next = .ok term) :
    (∃ u, classifyTerminator d = some (.uncond u) ∧ term = .branch u.toNat) ∨
    (∃ op c u, classifyTerminator d = some (.cond op (some c) u) ∧
      term = .cond c u.toNat ((s[i+1]?.map (·.offsetDwords)).getD usizeMax)) ∨
    (branchOf d = none ∧ ((∃ x, next = some x ∧ term = .fallthrough x) ∨ term = .ret)) := by
  unfold blockTerminator at h
  split at h
  · rename_i hd
    cases h
    simp [branchOf, hd]
  · rename_i u hu
    cases h
    exact .inl ⟨u,hu,rfl⟩
  · rename_i op c u hu
    cases h
    exact .inr (.inl ⟨op,c,u,hu,rfl⟩)
  · cases h
  · rename_i hd
    split at h
    · cases h
      simp [branchOf, hd]
    · cases h
      simp [branchOf, hd]

lemma loopOf_eq_some {cfg : Cfg} {bi : ℕ} {li : LoopInfo} (h : cfg.loopOf bi = some li) :
    ∃ b, cfg.blocks[bi]? = some b ∧ b.terminator = .cond li.cond li.header li.merge ∧
      li.backEdgeBlock = b.start ∧ li.header ≤ b.start := by
  unfold Cfg.loopOf at h
  split at h
  · rename_i start insts c taken fall hb
    split_ifs at h with hfwd
    cases h
    exact ⟨_,hb,rfl,rfl,by simpa using hfwd⟩
  · cases h

lemma loopOf_of_cond {cfg : Cfg} {k : ℕ} {b : BasicBlock} {c : BranchCond} {taken fall : ℕ}
    (hb : cfg.blocks[k]? = some b) (hterm : b.terminator = .cond c taken fall)
    (hback : taken ≤ b.start) : cfg.loopOf k = some ⟨taken,b.start,fall,c⟩ := by
  obtain ⟨start,insts,term⟩ := b
  cases hterm
  simp only [Cfg.loopOf, hb]
  exact if_neg (by simpa using hback)

namespace EndsAt

variable {s : List Decoded} {cfg : Cfg} {k i : ℕ} {b : BasicBlock} {d : Decoded}

lemma offset_lt_next (hs : Contiguous s) (h : EndsAt s cfg k b i d) {c : BasicBlock}
    (hc : cfg.blocks[k+1]? = some c) : d.offsetDwords < c.start := by
  have hnext := h.next
  rw [hc] at hnext
  obtain ⟨e,he,hoff⟩ := Option.map_eq_some_iff.mp hnext.symm
  have := hs.offset_lt h.inst he (Nat.lt_succ_self i)
  dsimp only at hoff
  omega

lemma start_le_iff (hs : Contiguous s) (hl : Layout s cfg) (h : EndsAt s cfg k b i d) {j : ℕ}
    {c : BasicBlock} (hc : cfg.blocks[j]? = some c) : c.start ≤ d.offsetDwords ↔ j ≤ k := by
  have hstart := h.start_le
  have hbc := hl.start_lt_iff h.block hc
  refine ⟨fun hle => ?_,fun hle => by omega⟩
  by_contra hlt
  have hjlt := (List.getElem?_eq_some_iff.mp hc).1
  obtain ⟨n,hn⟩ : ∃ n, cfg.blocks[k+1]? = some n := ⟨_,List.getElem?_eq_getElem (by omega)⟩
  have hnext := h.offset_lt_next hs hn
  have hcn := hl.start_lt_iff hc hn
  omega

lemma offset_lt_of_index_lt (hs : Contiguous s) (hl : Layout s cfg) (h : EndsAt s cfg k b i d)
    {k' i' : ℕ} {b' : BasicBlock} {d' : Decoded} (h' : EndsAt s cfg k' b' i' d') (hlt : k < k') :
    d.offsetDwords < d'.offsetDwords := by
  have hd := (h.start_le_iff hs hl h'.block).not.mpr (by omega)
  have hd' := h'.start_le
  omega

lemma inst_unique (hs : Contiguous s) (h : EndsAt s cfg k b i d) {b' : BasicBlock} {i' : ℕ}
    {d' : Decoded} (h' : EndsAt s cfg k b' i' d') : d = d' := by
  have hi := (List.getElem?_eq_some_iff.mp h.inst).1
  have hi' := (List.getElem?_eq_some_iff.mp h'.inst).1
  have hnext := h.next.symm.trans h'.next
  have heq : i = i' := by
    cases he : s[i+1]? with
    | none =>
      rw [he] at hnext
      have hn := List.getElem?_eq_none_iff.mp he
      have hn' := List.getElem?_eq_none_iff.mp (Option.map_eq_none_iff.mp hnext.symm)
      omega
    | some e =>
      rw [he] at hnext
      obtain ⟨e',he',hoff⟩ := Option.map_eq_some_iff.mp hnext.symm
      have := hs.index_eq he' he hoff
      omega
  subst heq
  exact Option.some.inj (h.inst.symm.trans h'.inst)

/-- An edge leaves a block to the next one or along the branch that ends it. -/
lemma edge_cases (hb : ∀ d ∈ s, d.offsetDwords < 2^32) (hl : Layout s cfg)
    (h : EndsAt s cfg k b i d) {j : ℕ} (he : cfg.Edge k j) :
    j = k+1 ∨ ∃ c t, cfg.blocks[j]? = some c ∧ c.start = t.toNat ∧
      ((classifyTerminator d = some (.uncond t) ∧ b.terminator = .branch c.start) ∨
        ∃ op cond fall, classifyTerminator d = some (.cond op (some cond) t) ∧
          b.terminator = .cond cond c.start fall) := by
  obtain ⟨b',c,hb',hc,hmem⟩ := he
  obtain rfl : b = b' := Option.some.inj (h.block.symm.trans hb')
  have hterm := h.term
  -- a target that is the next leader is the next block
  have hnext : ∀ x, cfg.blocks[k+1]?.map (·.start) = some x → c.start = x → j = k+1 := by
    intro x hx hcx
    obtain ⟨e,he,hoff⟩ := Option.map_eq_some_iff.mp hx
    exact hl.index_eq hc he (hcx.trans hoff.symm)
  rcases blockTerminator_cases hterm with ⟨u,hu,ht⟩ | ⟨op,cond,u,hu,ht⟩ | ⟨-,⟨x,hx,ht⟩ | ht⟩
  · rw [ht] at hmem
    have hstart : c.start = u.toNat := by simpa [Terminator.targets] using hmem
    exact .inr ⟨c,u,hc,hstart,.inl ⟨hu,hstart ▸ ht⟩⟩
  · rw [ht] at hmem
    simp only [Terminator.targets, List.mem_cons, List.not_mem_nil, or_false] at hmem
    rcases hmem with hmem | hmem
    · exact .inr ⟨c,u,hc,hmem,.inr ⟨op,cond,_,hu,hmem ▸ ht⟩⟩
    · cases hsucc : s[i+1]? with
      | some e =>
        refine .inl (hnext e.offsetDwords ?_ (by simpa [hsucc] using hmem))
        rw [h.next, hsucc]
        rfl
      | none =>
        -- the one-past-end fall of a final branch is no block
        obtain ⟨m,e,hm,hoff⟩ := hl.offset _ (List.mem_map_of_mem (List.mem_of_getElem? hc))
        have hlt := hb e (List.mem_of_getElem? hm)
        simp only [hsucc, Option.map_none, Option.getD_none, usizeMax] at hmem
        omega
  · rw [ht] at hmem
    exact .inl (hnext x hx (by simpa [Terminator.targets] using hmem))
  · rw [ht] at hmem
    simp [Terminator.targets] at hmem

end EndsAt

lemma Layout.checked {s : List Decoded} {cfg : Cfg} (hl : Layout s cfg) : LoopsChecked cfg :=
  validateLoops_checked hl.validated

/-- The loop block `bi` closes, located in the stream: `d` is its back-edge branch. -/
structure BackEdge (s : List Decoded) (cfg : Cfg) (hi bi : ℕ) (li : LoopInfo) (d : Decoded) :
    Prop where
  contiguous : Contiguous s
  bounded : ∀ d ∈ s, d.offsetDwords < 2^32
  layout : Layout s cfg
  loop : cfg.loopOf bi = some li
  ends : ∃ b i, EndsAt s cfg bi b i d
  taken : ∃ op c t, classifyTerminator d = some (.cond op c t) ∧ t = li.header
  header : ∃ h, cfg.blocks[hi]? = some h ∧ h.start = li.header
  merge : ∃ m, cfg.blocks[bi+1]? = some m ∧ m.start = li.merge
  merge_eq : li.merge = d.offsetDwords+d.sizeDwords
  pos : 0 < hi
  le : hi ≤ bi

theorem exists_backEdge {s : List Decoded} (hs : Contiguous s)
    (hb : ∀ d ∈ s, d.offsetDwords < 2^32) {cfg : Cfg} (hl : Layout s cfg) {bi : ℕ} {li : LoopInfo}
    (hli : cfg.loopOf bi = some li) : ∃ hi d, BackEdge s cfg hi bi li d := by
  obtain ⟨b,hblock,hterm,-,hle⟩ := loopOf_eq_some hli
  obtain ⟨i,d,hends⟩ := hl.endsAt bi b hblock
  have hcases := blockTerminator_cases hends.term
  rw [hterm] at hcases
  simp only [reduceCtorEq, and_false, exists_false, Terminator.cond.injEq, false_or,
    or_false, or_self] at hcases
  obtain ⟨op,c,t,hclass,-,hheader,hmerge⟩ := hcases
  have hdmem := List.mem_of_getElem? hends.inst
  have htpos := hl.target d hdmem t (branchOf_cond hclass)
  have hheadmem := (hl.mem_starts li.header).mpr
    (.inr ⟨i,d,t,hends.inst,branchOf_cond hclass,.inl hheader⟩)
  obtain ⟨hi,h,hh,hhstart⟩ := Layout.block_of_start hheadmem
  obtain ⟨m,hm⟩ := hl.checked.merge bi li hli
  obtain ⟨mb,hmb,hmstart⟩ := blockIndexAt_eq_some hm
  -- the merge is a block, so the branch has a next instruction
  obtain ⟨e,he⟩ : ∃ e, s[i+1]? = some e := by
    cases hsucc : s[i+1]? with
    | some e => exact ⟨e,rfl⟩
    | none =>
      obtain ⟨k,e,hk,hoff⟩ := hl.offset _ (List.mem_map_of_mem (List.mem_of_getElem? hmb))
      have hlt := hb e (List.mem_of_getElem? hk)
      simp only [hsucc, Option.map_none, Option.getD_none, usizeMax] at hmerge
      omega
  have hmerge' : li.merge = e.offsetDwords := by simpa [he] using hmerge
  have hnext := hends.next
  rw [he] at hnext
  obtain ⟨m',hm',hmstart'⟩ := Option.map_eq_some_iff.mp hnext
  refine ⟨hi,d,hs,hb,hl,hli,⟨b,i,hends⟩,⟨op,_,t,hclass,by omega⟩,⟨h,hh,hhstart⟩,
    ⟨m',hm',hmstart'.trans hmerge'.symm⟩,hmerge'.trans (hs.offset_succ hends.inst he),?_,?_⟩
  · have hzero := hl.checked.header bi li hli
    rw [← hhstart, hl.blockIndexAt hh] at hzero
    exact Nat.pos_of_ne_zero (by simpa using hzero)
  · by_contra hlt
    have := (hl.start_lt_iff hblock hh).mpr (by omega)
    omega

namespace BackEdge

variable {s : List Decoded} {cfg : Cfg} {hi bi : ℕ} {li : LoopInfo} {d : Decoded}

/-- Only the back-edge goes backward. -/
lemma edge_forward (h : BackEdge s cfg hi bi li d) {i j : ℕ} (hij : cfg.Edge i j)
    (hne : i ≠ bi) : i < j := by
  obtain ⟨b,-,hb,-,-⟩ := id hij
  obtain ⟨k,e,he⟩ := h.layout.endsAt i b hb
  rcases he.edge_cases h.bounded h.layout hij with rfl | ⟨c,t,hc,-,hterm⟩
  · exact Nat.lt_succ_self i
  · rw [← h.layout.start_lt_iff hb hc]
    rcases hterm with ⟨-,ht⟩ | ⟨op,cond,fall,-,ht⟩
    · exact h.layout.checked.forward b (List.mem_of_getElem? hb) _ ht
    · by_contra hback
      have hloop := loopOf_of_cond hb ht (Nat.le_of_not_lt hback)
      exact hne (h.layout.checked.unique i bi _ li hloop h.loop)

lemma edge_backEdge (h : BackEdge s cfg hi bi li d) {j : ℕ} (hij : cfg.Edge bi j) :
    j = bi+1 ∨ j = hi := by
  obtain ⟨b,i,hends⟩ := h.ends
  obtain ⟨op,c,t,hclass,ht⟩ := h.taken
  obtain ⟨hb,hhb,hstart⟩ := h.header
  rcases hends.edge_cases h.bounded h.layout hij with rfl | ⟨c',u,hc',hcu,hterm⟩
  · exact .inl rfl
  · refine .inr (h.layout.index_eq hc' hhb ?_)
    have hut : u = t := by
      rcases hterm with ⟨hu,-⟩ | ⟨_,_,_,hu,-⟩
      · simp [hclass] at hu
      · rw [hclass] at hu
        cases hu
        rfl
    omega

lemma start_le_branch (h : BackEdge s cfg hi bi li d) {j : ℕ} {c : BasicBlock}
    (hc : cfg.blocks[j]? = some c) : c.start ≤ d.offsetDwords ↔ j ≤ bi := by
  obtain ⟨b,i,hends⟩ := h.ends
  exact hends.start_le_iff h.contiguous h.layout hc

lemma header_le_start (h : BackEdge s cfg hi bi li d) {j : ℕ} {c : BasicBlock}
    (hc : cfg.blocks[j]? = some c) : li.header ≤ c.start ↔ hi ≤ j := by
  obtain ⟨hb,hhb,hstart⟩ := h.header
  have := h.layout.start_lt_iff hc hhb
  omega

lemma offset_lt_header (h : BackEdge s cfg hi bi li d) {i k : ℕ} {b : BasicBlock} {e : Decoded}
    (he : EndsAt s cfg i b k e) : e.offsetDwords < li.header ↔ i < hi := by
  obtain ⟨hb,hhb,hstart⟩ := h.header
  have := he.start_le_iff h.contiguous h.layout hhb
  omega

lemma index_le_of_offset_le (h : BackEdge s cfg hi bi li d) {i k : ℕ} {b : BasicBlock}
    {e : Decoded} (he : EndsAt s cfg i b k e) (hle : e.offsetDwords ≤ d.offsetDwords) : i ≤ bi := by
  have hstart := he.start_le
  rw [← h.start_le_branch he.block]
  omega

/-- The two conditions `LoopClear` puts on this loop. -/
def Clear (s : List Decoded) (li : LoopInfo) (d : Decoded) : Prop :=
  (∀ e ∈ s, ∀ u, branchOf e = some u → e.offsetDwords < li.header →
    (li.header : ℤ) < u → (d.offsetDwords : ℤ) < u) ∧
  (∀ e ∈ s, ∀ u, classifyTerminator e = some (.uncond u) → li.header ≤ e.offsetDwords →
    e.offsetDwords ≤ d.offsetDwords → u ≤ d.offsetDwords+d.sizeDwords)

lemma entry_of_clear (h : BackEdge s cfg hi bi li d) (hclear : Clear s li d) {i j : ℕ}
    (hij : cfg.Edge i j) (hi' : i ∉ Set.Icc hi bi) (hj : j ∈ Set.Icc hi bi) : j = hi := by
  simp only [Set.mem_Icc, not_and_or, not_le] at hi' hj
  have hne : i ≠ bi := by
    rintro rfl
    have := h.le
    omega
  have hfwd := h.edge_forward hij hne
  obtain ⟨b,-,hb,-,-⟩ := id hij
  obtain ⟨k,e,he⟩ := h.layout.endsAt i b hb
  rcases he.edge_cases h.bounded h.layout hij with rfl | ⟨c,t,hc,hct,hterm⟩
  · omega
  · have hbr : branchOf e = some t := by
      rcases hterm with ⟨ht,-⟩ | ⟨_,_,_,ht,-⟩
      · exact branchOf_uncond ht
      · exact branchOf_cond ht
    have hmem := List.mem_of_getElem? he.inst
    have htpos := h.layout.target e hmem t hbr
    have hbefore := (h.offset_lt_header he).mpr (by omega)
    have hend := (h.start_le_branch hc).mpr hj.2
    have hjump := hclear.1 e hmem t hbr hbefore
    obtain ⟨hblk,hhb,hstart⟩ := h.header
    have hle := h.layout.start_lt_iff hhb hc
    omega

lemma exit_of_clear (h : BackEdge s cfg hi bi li d) (hclear : Clear s li d) {i j : ℕ}
    (hij : cfg.Edge i j) (hi' : i ∈ Set.Icc hi bi) (hj : j ∉ Set.Icc hi bi) :
    cfg.blockIndexAt li.merge = some j := by
  simp only [Set.mem_Icc, not_and_or, not_le] at hi' hj
  obtain ⟨m,hm,hmstart⟩ := h.merge
  rw [← hmstart, h.layout.blockIndexAt hm, Option.some.injEq]
  by_cases hne : i = bi
  · subst hne
    rcases h.edge_backEdge hij with rfl | rfl
    · rfl
    · have := h.le
      omega
  · have hfwd := h.edge_forward hij hne
    obtain ⟨b,-,hb,-,-⟩ := id hij
    obtain ⟨k,e,he⟩ := h.layout.endsAt i b hb
    rcases he.edge_cases h.bounded h.layout hij with rfl | ⟨c,t,hc,hct,⟨ht,-⟩ | ⟨_,_,_,-,ht⟩⟩
    · omega
    · have hmem := List.mem_of_getElem? he.inst
      have htpos := h.layout.target e hmem t (branchOf_uncond ht)
      have hafter : ¬ e.offsetDwords < li.header := by
        rw [h.offset_lt_header he]
        omega
      obtain ⟨lb,l,hends⟩ := h.ends
      have hbefore := he.offset_lt_of_index_lt h.contiguous h.layout hends (by omega)
      have hjump := hclear.2 e hmem t ht (by omega) hbefore.le
      have hmerge := h.merge_eq
      have hle := h.layout.start_lt_iff hm hc
      omega
    · -- an inner conditional was rejected
      obtain ⟨lb,hlb,-,hback,-⟩ := loopOf_eq_some h.loop
      have hlo := (h.header_le_start hb).mpr hi'.1
      have hhi : b.start ≤ li.backEdgeBlock := by
        rw [hback]
        exact (h.layout.start_lt hb hlb (by omega)).le
      have := h.layout.checked.inner bi li h.loop i b hb hlo hhi hne
      simp [isCond, ht] at this

theorem structured_of_clear (h : BackEdge s cfg hi bi li d) (hclear : Clear s li d) :
    StructuredLoop cfg hi bi li := by
  refine ⟨fun k hk => ?_,fun i j => h.entry_of_clear hclear,fun i j => h.exit_of_clear hclear⟩
  refine dominates_of_entry (fun i j => h.entry_of_clear hclear) ?_ hk
  have := h.pos
  simp only [Set.mem_Icc, not_and_or]
  omega

/-- A branch instruction of the stream is an edge of the graph. -/
lemma edge_of_branch (h : BackEdge s cfg hi bi li d) {e : Decoded} {u : ℤ} (he : e ∈ s)
    (hu : branchOf e = some u) :
    ∃ i j b c k, EndsAt s cfg i b k e ∧ cfg.blocks[j]? = some c ∧ (c.start : ℤ) = u ∧
      cfg.Edge i j := by
  obtain ⟨k,hk⟩ := List.mem_iff_getElem?.mp he
  obtain ⟨i,b,hends⟩ := h.layout.endsAt_of_branch h.contiguous hk hu
  have hupos := h.layout.target e he u hu
  have hmem := (h.layout.mem_starts u.toNat).mpr (.inr ⟨k,e,u,hk,hu,.inl rfl⟩)
  obtain ⟨j,c,hc,hcs⟩ := Layout.block_of_start hmem
  refine ⟨i,j,b,c,k,hends,hc,by omega,b,c,hends.block,hc,?_⟩
  rcases blockTerminator_cases hends.term with ⟨v,hv,ht⟩ | ⟨op,cond,v,hv,ht⟩ | ⟨hnone,-⟩
  · rw [branchOf_uncond hv] at hu
    cases hu
    simp [ht, Terminator.targets, hcs]
  · rw [branchOf_cond hv] at hu
    cases hu
    simp [ht, Terminator.targets, hcs]
  · simp [hnone] at hu

theorem clear_of_structured (h : BackEdge s cfg hi bi li d) (hloop : StructuredLoop cfg hi bi li) :
    Clear s li d := by
  constructor
  · intro e he u hu hbefore hpast
    by_contra hin
    obtain ⟨i,j,b,c,k,hends,hc,hcu,hij⟩ := h.edge_of_branch he hu
    have hi' := (h.offset_lt_header hends).mp hbefore
    have hjle := (h.start_le_branch hc).mp (by omega)
    obtain ⟨hb,hhb,hstart⟩ := h.header
    have hjgt := (h.layout.start_lt_iff hhb hc).mp (by omega)
    have := hloop.entry i j hij (by simp only [Set.mem_Icc]; omega) ⟨hjgt.le,hjle⟩
    omega
  · intro e he u hu hafter hbefore
    by_contra hout
    obtain ⟨i,j,b,c,k,hends,hc,hcu,hij⟩ := h.edge_of_branch he (branchOf_uncond hu)
    have hige : ¬ i < hi := by
      rw [← h.offset_lt_header hends]
      omega
    have hile := h.index_le_of_offset_le hends hbefore
    have hjgt : ¬ j ≤ bi := by
      rw [← h.start_le_branch hc]
      omega
    have hexit := hloop.exit i j hij ⟨by omega,hile⟩ (by simp only [Set.mem_Icc]; omega)
    obtain ⟨mb,hmb,hmstart⟩ := blockIndexAt_eq_some hexit
    rw [hc] at hmb
    cases hmb
    have := h.merge_eq
    omega

end BackEdge

/-- The stream has one back-edge. -/
lemma BackEdge.eq_of_cond {s : List Decoded} {cfg : Cfg} {hi bi : ℕ} {li : LoopInfo}
    {d : Decoded} (h : BackEdge s cfg hi bi li d) {e : Decoded} (he : e ∈ s) {op : SoppOp}
    {c : Option BranchCond} {t : ℤ} (hcond : classifyTerminator e = some (.cond op c t))
    (hback : t ≤ e.offsetDwords) : e = d := by
  obtain ⟨i,j,b,c',k,hends,hc',hct,hij⟩ := h.edge_of_branch he (branchOf_cond hcond)
  have hji := (hends.start_le_iff h.contiguous h.layout hc').mp (by omega)
  have hbi : i = bi := by
    by_contra hne
    have := h.edge_forward hij hne
    omega
  subst hbi
  obtain ⟨b',i',hends'⟩ := h.ends
  exact hends.inst_unique h.contiguous hends'

lemma BackEdge.clear_iff {insts : List Decoded} {cfg : Cfg} {hi bi : ℕ} {li : LoopInfo}
    {d : Decoded} (h : BackEdge (live insts) cfg hi bi li d) :
    Clear (live insts) li d ↔ LoopClear insts := by
  obtain ⟨op,c,t,hclass,ht⟩ := h.taken
  obtain ⟨b,i,hends⟩ := h.ends
  obtain ⟨hb,hhb,hstart⟩ := h.header
  have hback := (h.start_le_branch hhb).mpr h.le
  constructor
  · intro hclear e he op' c' t' hcond hle
    obtain rfl := h.eq_of_cond he hcond hle
    rw [hclass] at hcond
    cases hcond
    subst ht
    refine ⟨fun e he u hu hbefore => hclear.1 e he u hu (by omega),
      fun e he u hu hafter => hclear.2 e he u hu (by omega)⟩
  · intro hclear
    obtain ⟨hentry,hexit⟩ := hclear d (List.mem_of_getElem? hends.inst) op c t hclass (by omega)
    subst ht
    exact ⟨fun e he u hu hbefore => hentry e he u hu (by omega),
      fun e he u hu hafter => hexit e he u hu (by omega)⟩

/-- The header of an accepted loop dominates it and is its only entry, and the merge
its only exit, exactly when no forward branch jumps into or out of the middle. -/
theorem structuredLoop_iff_loopClear (s : Stream) (cfg : Cfg) (hcfg : buildCfg s.insts = .ok cfg)
    (bi : ℕ) (li : LoopInfo) (hli : cfg.loopOf bi = some li) :
    (∃ hi, cfg.blockIndexAt li.header = some hi ∧ StructuredLoop cfg hi bi li) ↔
      LoopClear s.insts := by
  have hl := buildCfg_layout s.contiguous hcfg
  have hbounded : ∀ d ∈ live s.insts, d.offsetDwords < 2^32 :=
    fun d hd => s.bounded d (List.mem_of_mem_take hd)
  obtain ⟨hi,d,h⟩ := exists_backEdge (live_contiguous s.contiguous) hbounded hl hli
  obtain ⟨hb,hhb,hstart⟩ := id h.header
  have hidx : cfg.blockIndexAt li.header = some hi := by rw [← hstart, hl.blockIndexAt hhb]
  rw [← h.clear_iff]
  constructor
  · rintro ⟨hi',hidx',hloop⟩
    rw [hidx] at hidx'
    cases hidx'
    exact h.clear_of_structured hloop
  · intro hclear
    exact ⟨hi,hidx,h.structured_of_clear hclear⟩

/-- One-dword scalar program-control instructions from offset 0 on. -/
def soppAt (offset : ℕ) (op : SoppOp) (simm16 : BitVec 16) : Decoded :=
  ⟨.sopp op simm16,1,offset⟩

/-- A one-block loop behind a pre-header. -/
def fusedLoop : Stream where
  insts := [soppAt 0 .sNop 0,soppAt 1 .sNop 0,soppAt 2 .sCbranchVccnz (-2),soppAt 3 .sEndpgm 0]
  contiguous := by decide
  bounded := by decide

theorem fusedLoop_structured_iff :
    ∃ cfg li, buildCfg fusedLoop.insts = .ok cfg ∧ cfg.loopOf 1 = some li ∧
      ((∃ hi, cfg.blockIndexAt li.header = some hi ∧ StructuredLoop cfg hi 1 li) ↔
        LoopClear fusedLoop.insts) :=
  ⟨⟨[⟨0,[0],.fallthrough 1⟩,⟨1,[1,2],.cond .vccnz 1 3⟩,⟨3,[3],.ret⟩]⟩,⟨1,1,3,.vccnz⟩,
    by decide,by decide,structuredLoop_iff_loopClear fusedLoop _ (by decide) 1 _ (by decide)⟩

/-- The first branch skips the loop header and lands in the middle of the body. -/
def midEntry : Stream where
  insts := [soppAt 0 .sCbranchExecz 2,soppAt 1 .sNop 0,soppAt 2 .sNop 0,soppAt 3 .sNop 0,
    soppAt 4 .sCbranchVccnz (-3),soppAt 5 .sEndpgm 0]
  contiguous := by decide
  bounded := by decide

def midEntryCfg : Cfg :=
  ⟨[⟨0,[0],.cond .execz 3 1⟩,⟨1,[1],.fallthrough 2⟩,⟨2,[2],.fallthrough 3⟩,
    ⟨3,[3,4],.cond .vccnz 2 5⟩,⟨5,[5],.ret⟩]⟩

theorem midEntry_not_structured :
    buildCfg midEntry.insts = .ok midEntryCfg ∧
      midEntryCfg.loopOf 3 = some ⟨2,3,5,.vccnz⟩ ∧
      ¬ ∃ hi, midEntryCfg.blockIndexAt 2 = some hi ∧
        StructuredLoop midEntryCfg hi 3 ⟨2,3,5,.vccnz⟩ := by
  refine ⟨by decide,by decide,?_⟩
  rintro ⟨hi,hidx,hloop⟩
  obtain rfl : 2 = hi := Option.some.inj ((by decide : midEntryCfg.blockIndexAt 2 = some 2).symm.trans hidx)
  have hedge : midEntryCfg.Edge 0 3 := ⟨_,_,rfl,rfl,by decide⟩
  have := hloop.entry 0 3 hedge (by simp) (by simp)
  omega

end Unemups4.Gcn
