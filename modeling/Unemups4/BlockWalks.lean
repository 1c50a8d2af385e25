import Unemups4.BlockPartition
import Unemups4.InterpCfg
import Unemups4.SpirvCfg

/-! The walks over the blocks, of the interpreter and of the recompiler, find every block and every
instruction that they look up. -/
namespace Unemups4.Gcn
open Fallible

/-- What a walk looks up: the instructions of the blocks and the blocks that terminators name. -/
structure Linked (insts : List Decoded) (cfg : Cfg) : Prop where
  index_lt : ∀ b ∈ cfg.blocks, ∀ i ∈ b.insts, i < insts.length
  targets : ∀ b ∈ cfg.blocks, ∀ t ∈ b.terminator.targets, ∃ k, cfg.blockIndexAt t = some k
  starts : ∀ b ∈ cfg.blocks, ∃ k, cfg.blockIndexAt b.start = some k
  merge : ∀ bi li, cfg.loopOf bi = some li → ∃ k, cfg.blockIndexAt li.merge = some k
  unique : ∀ (i : ℕ) (b : BasicBlock), cfg.blocks[i]? = some b → cfg.blockIndexAt b.start = some i

lemma buildCfg_linked {insts : List Decoded} (hs : Contiguous insts) {cfg : Cfg}
    (h : buildCfg insts = .ok cfg) : Linked insts cfg := by
  have hl := buildCfg_layout hs h
  have hwf := buildCfg_wellFormed hs h
  refine ⟨?_,hwf.targets,fun b hb => hl.index_of_start (List.mem_map_of_mem hb),hl.checked.merge,
    fun i b hb => hl.blockIndexAt hb⟩
  intro b hb i hi
  have hmem : i ∈ cfg.blocks.flatMap (·.insts) := List.mem_flatMap.mpr ⟨b,hb,hi⟩
  rw [hwf.partition,List.mem_range] at hmem
  have := List.length_take_le' (((insts.findIdx? isEndpgm).map (· + 1)).getD insts.length) insts
  rw [live] at hmem
  omega

section Lookups

variable {insts : List Decoded} {cfg : Cfg}

lemma mergeTarget_start {bi m : ℕ} (h : cfg.mergeTarget bi = some m) :
    ∃ b ∈ cfg.blocks, b.start = m := by
  unfold Cfg.mergeTarget at h
  split at h
  · obtain ⟨takenI,-,h⟩ := Option.bind_eq_some_iff.mp h
    obtain ⟨fallI,-,h⟩ := Option.bind_eq_some_iff.mp h
    have hmem := List.min?_mem h
    obtain ⟨i,-,hi⟩ := List.mem_filterMap.mp hmem
    obtain ⟨b,hb,rfl⟩ := Option.map_eq_some_iff.mp hi
    exact ⟨b,List.mem_of_getElem? hb,rfl⟩
  · cases h

lemma blockAt_of_index {start k : ℕ} (h : cfg.blockIndexAt start = some k) :
    ∃ b, cfg.blockAt start = some (k,b) ∧ cfg.blocks[k]? = some b := by
  obtain ⟨b,hb,-⟩ := blockIndexAt_eq_some h
  exact ⟨b,by simp [Cfg.blockAt,h,hb],hb⟩

lemma Linked.target (h : Linked insts cfg) {k : ℕ} {b : BasicBlock} (hb : cfg.blocks[k]? = some b) :
    ∀ t ∈ b.terminator.targets, ∃ k, cfg.blockIndexAt t = some k :=
  h.targets b (List.mem_of_getElem? hb)

lemma Linked.merge_index (h : Linked insts cfg) {bi m : ℕ} (hm : cfg.mergeTarget bi = some m) :
    ∃ k, cfg.blockIndexAt m = some k := by
  obtain ⟨b,hb,rfl⟩ := mergeTarget_start hm
  exact h.starts b hb

end Lookups

section Interpreter

variable {E : Env} {insts : List Decoded} {cfg : Cfg}

/-- An instruction of its own panics, in some state of the wave. -/
def Faults (E : Env) (insts : List Decoded) : Prop :=
  ∃ d ∈ insts, ∃ w, execOne E d w = .error .panicked

lemma runBody_panicked {idxs : List ℕ} {w : Wave} (hidx : ∀ i ∈ idxs, i < insts.length)
    (h : runBody E insts idxs w = .error .panicked) : Faults E insts := by
  induction idxs generalizing w with
  | nil => cases h
  | cons i idxs ih =>
    have hi := hidx i (by simp)
    have hrest : ∀ j ∈ idxs, j < insts.length := fun j hj => hidx j (by simp [hj])
    simp only [runBody,List.getElem?_eq_getElem hi] at h
    split_ifs at h
    · exact ih hrest h
    · rcases bind_eq_error.mp h with h | ⟨w',-,h⟩
      · exact ⟨insts[i],List.getElem_mem hi,w,h⟩
      · exact ih hrest h

lemma runBlockBody_panicked (hlink : Linked insts cfg) {k : ℕ} {b : BasicBlock}
    (hb : cfg.blocks[k]? = some b) {w : Wave} (h : runBlockBody E insts b w = .error .panicked) :
    Faults E insts :=
  runBody_panicked (hlink.index_lt b (List.mem_of_getElem? hb)) h

lemma runRegion_panicked (hlink : Linked insts cfg) {stop steps cur : ℕ} {w : Wave}
    (hcur : ∃ k, cfg.blockIndexAt cur = some k)
    (h : runRegion E insts cfg stop steps cur w = .error .panicked) : Faults E insts := by
  induction steps generalizing cur w with
  | zero =>
    rw [runRegion] at h
    split_ifs at h
    cases h
  | succ steps ih =>
    rw [runRegion] at h
    split_ifs at h
    obtain ⟨k,hk⟩ := hcur
    obtain ⟨b,hat,hb⟩ := blockAt_of_index hk
    simp only [hat] at h
    rcases bind_eq_error.mp h with h | ⟨⟨ended,w'⟩,-,h⟩
    · exact runBlockBody_panicked hlink hb h
    · dsimp only at h
      split_ifs at h
      · cases h
      have htarget := hlink.target hb
      split at h
      · next t hterm => exact ih (htarget t (by simp [hterm,Terminator.targets])) h
      · next t hterm => exact ih (htarget t (by simp [hterm,Terminator.targets])) h
      · cases h
      · cases h

lemma runLoopBody_panicked (hlink : Linked insts cfg) {li : LoopInfo} {steps cur : ℕ} {w : Wave}
    (hcur : ∃ k, cfg.blockIndexAt cur = some k)
    (h : runLoopBody E insts cfg li steps cur w = .error .panicked) : Faults E insts := by
  induction steps generalizing cur w with
  | zero => cases h
  | succ steps ih =>
    obtain ⟨k,hk⟩ := hcur
    obtain ⟨b,hat,hb⟩ := blockAt_of_index hk
    simp only [runLoopBody,hat] at h
    rcases bind_eq_error.mp h with h | ⟨⟨ended,w'⟩,-,h⟩
    · exact runBlockBody_panicked hlink hb h
    · dsimp only at h
      split_ifs at h
      · cases h
      · cases h
      have htarget := hlink.target hb
      split at h
      · next t hterm => exact ih (htarget t (by simp [hterm,Terminator.targets])) h
      · next t hterm => exact ih (htarget t (by simp [hterm,Terminator.targets])) h
      · cases h
      · cases h

/-- The header of a loop is the target of its back-edge. -/
lemma loop_header (hlink : Linked insts cfg) {bi : ℕ} {li : LoopInfo} (hli : cfg.loopOf bi = some li) :
    ∃ k, cfg.blockIndexAt li.header = some k := by
  obtain ⟨b,hb,hterm,-⟩ := loopOf_eq_some hli
  exact hlink.target hb _ (by simp [hterm,Terminator.targets])

lemma runLoop_panicked (hlink : Linked insts cfg) {li : LoopInfo}
    (hheader : ∃ k, cfg.blockIndexAt li.header = some k) {cap iters : ℕ} {saved : Mask} {w : Wave}
    (h : runLoop E insts cfg li cap saved iters w = .error .panicked) : Faults E insts := by
  induction iters generalizing w with
  | zero =>
    rw [runLoop] at h
    split_ifs at h
    cases h
  | succ iters ih =>
    rw [runLoop] at h
    split_ifs at h
    rcases bind_eq_error.mp h with h | ⟨⟨ended,w'⟩,-,h⟩
    · exact runLoopBody_panicked hlink hheader h
    · dsimp only at h
      split_ifs at h
      · cases h
      · exact ih h

lemma runArm_panicked (hlink : Linked insts cfg) {cap start merge : ℕ} {mask : Mask} {w : Wave}
    (hstart : ∃ k, cfg.blockIndexAt start = some k)
    (h : runArm E insts cfg cap start merge mask w = .error .panicked) : Faults E insts := by
  unfold runArm at h
  split_ifs at h
  exact runRegion_panicked hlink hstart h

lemma runCond_panicked (hlink : Linked insts cfg) {cap bi start taken fall : ℕ} {c : BranchCond}
    {w : Wave} (htaken : ∃ k, cfg.blockIndexAt taken = some k)
    (hfall : ∃ k, cfg.blockIndexAt fall = some k)
    (h : runCond E insts cfg cap bi start c taken fall w = .error .panicked) : Faults E insts := by
  unfold runCond at h
  split_ifs at h
  split at h
  · cases h
  · rcases bind_eq_error.mp h with h | ⟨⟨ended,w'⟩,-,h⟩
    · exact runArm_panicked hlink htaken h
    · dsimp only at h
      split_ifs at h
      · cases h
      rcases bind_eq_error.mp h with h | ⟨⟨ended,w₂⟩,-,h⟩
      · exact runArm_panicked hlink hfall h
      · dsimp only at h
        split_ifs at h
        · cases h
        · cases h

/-- Where a walk goes on is a block. -/
lemma runCond_next (hlink : Linked insts cfg) {cap bi start taken fall : ℕ} {c : BranchCond} {w w' : Wave}
    {t : ℕ} (htaken : ∃ k, cfg.blockIndexAt taken = some k)
    (h : runCond E insts cfg cap bi start c taken fall w = .ok (some t,w')) :
    ∃ k, cfg.blockIndexAt t = some k := by
  unfold runCond at h
  split_ifs at h
  · cases h
    exact htaken
  · split at h
    · cases h
    · next merge hmerge =>
      obtain ⟨⟨ended,w₁⟩,-,h⟩ := bind_eq_ok.mp h
      dsimp only at h
      split_ifs at h
      · cases h
      obtain ⟨⟨ended,w₂⟩,-,h⟩ := bind_eq_ok.mp h
      dsimp only at h
      split_ifs at h
      · cases h
      · cases h
        exact hlink.merge_index hmerge

lemma runTerminator_panicked (hlink : Linked insts cfg) {cap bi : ℕ} {b : BasicBlock}
    (hb : cfg.blocks[bi]? = some b) {w : Wave}
    (h : runTerminator E insts cfg cap bi b w = .error .panicked) : Faults E insts := by
  unfold runTerminator at h
  have htarget := hlink.target hb
  split at h
  · cases h
  · cases h
  · cases h
  · next c taken fall hterm =>
    simp only [hterm,Terminator.targets,List.forall_mem_cons] at htarget
    split at h
    · next li hli =>
      rcases bind_eq_error.mp h with h | ⟨⟨ended,w'⟩,-,h⟩
      · exact runLoop_panicked hlink (loop_header hlink hli) h
      · cases h
    · exact runCond_panicked hlink htarget.1 htarget.2.1 h

lemma runTerminator_next (hlink : Linked insts cfg) {cap bi : ℕ} {b : BasicBlock}
    (hb : cfg.blocks[bi]? = some b) {w w' : Wave} {t : ℕ}
    (h : runTerminator E insts cfg cap bi b w = .ok (some t,w')) : ∃ k, cfg.blockIndexAt t = some k := by
  unfold runTerminator at h
  have htarget := hlink.target hb
  split at h
  · cases h
  · next u hterm =>
    cases h
    exact htarget _ (by simp [hterm,Terminator.targets])
  · next u hterm =>
    cases h
    exact htarget _ (by simp [hterm,Terminator.targets])
  · next c taken fall hterm =>
    simp only [hterm,Terminator.targets,List.forall_mem_cons] at htarget
    split at h
    · next li hli =>
      obtain ⟨⟨ended,w₁⟩,-,h⟩ := bind_eq_ok.mp h
      cases ended with
      | true => cases h
      | false =>
        cases h
        exact hlink.merge bi li hli
    · exact runCond_next hlink htarget.1 h

lemma walk_panicked (hlink : Linked insts cfg) {cap visits : ℕ} {cur : Option ℕ} {w : Wave}
    (hcur : ∀ start ∈ cur, ∃ k, cfg.blockIndexAt start = some k)
    (h : walk E insts cfg cap visits cur w = .error .panicked) : Faults E insts := by
  induction visits generalizing cur w with
  | zero => cases cur <;> cases h
  | succ visits ih =>
    cases cur with
    | none => cases h
    | some start =>
      obtain ⟨k,hk⟩ := hcur start rfl
      obtain ⟨b,hat,hb⟩ := blockAt_of_index hk
      simp only [walk,hat] at h
      rcases bind_eq_error.mp h with h | ⟨⟨ended,w'⟩,-,h⟩
      · exact runBlockBody_panicked hlink hb h
      · dsimp only at h
        split_ifs at h
        · cases h
        rcases bind_eq_error.mp h with h | ⟨⟨next,w₂⟩,hnext,h⟩
        · exact runTerminator_panicked hlink hb h
        · refine ih ?_ h
          rintro t rfl
          exact runTerminator_next hlink hb hnext

/-- The walk panics only where an instruction does. -/
theorem executeCfg_panicked (hlink : Linked insts cfg) {w : Wave}
    (h : executeCfg E insts cfg w = .error .panicked) : Faults E insts := by
  refine walk_panicked hlink ?_ h
  intro start hstart
  obtain ⟨b,hb,rfl⟩ := Option.map_eq_some_iff.mp hstart
  exact hlink.starts b (List.mem_of_mem_head? hb)

end Interpreter

section Recompiler

variable {σ β : Type} {em : BodyEmitter σ β} {insts : List Decoded} {cfg : Cfg}

/-- The emission of a body or of a condition panics by itself. -/
def EmitFaults (em : BodyEmitter σ β) : Prop :=
  (∃ st b, em.emitBlockBody st b = .error .panicked) ∨ ∃ st, em.condBoolForBranch st = .error .panicked

lemma labelAt_not_panicked {base start : ℕ} (h : ∃ k, cfg.blockIndexAt start = some k) :
    labelAt cfg base start ≠ .error .panicked := by
  obtain ⟨k,hk⟩ := h
  simp [labelAt,hk]

lemma branchPredicate_panicked {st : σ} {c : BranchCond}
    (h : branchPredicate em st c = .error .panicked) : EmitFaults em := by
  cases c with
  | vccz => exact .inr ⟨st,h⟩
  | vccnz => exact .inr ⟨st,h⟩
  | execz => cases h
  | execnz => cases h

lemma emitTerminator_panicked (hlink : Linked insts cfg) {base bi : ℕ} {st : σ} {b : BasicBlock}
    (hb : cfg.blocks[bi]? = some b) (h : emitTerminator em cfg base st bi b = .error .panicked) :
    EmitFaults em := by
  unfold emitTerminator at h
  have htarget := hlink.target hb
  have hbranch {t : ℕ} (ht : ∃ k, cfg.blockIndexAt t = some k) :
      (do
        let l ← labelAt cfg base t
        return SpirvTerm.branch l) ≠ .error .panicked := by
    intro h
    rcases bind_eq_error.mp h with h | ⟨l,-,h⟩
    · exact labelAt_not_panicked ht h
    · cases h
  split at h
  · cases h
  · next t hterm => exact absurd h (hbranch (htarget t (by simp [hterm,Terminator.targets])))
  · next t hterm => exact absurd h (hbranch (htarget t (by simp [hterm,Terminator.targets])))
  · next c taken fall hterm =>
    simp only [hterm,Terminator.targets,List.forall_mem_cons] at htarget
    rcases bind_eq_error.mp h with h | ⟨-,-,h⟩
    · exact branchPredicate_panicked h
    split at h
    · cases h
    · next merge hmerge =>
      rcases bind_eq_error.mp h with h | ⟨mergeL,-,h⟩
      · exact absurd h (labelAt_not_panicked (hlink.merge_index hmerge))
      rcases bind_eq_error.mp h with h | ⟨takeL,-,h⟩
      · exact absurd h (labelAt_not_panicked htarget.1)
      rcases bind_eq_error.mp h with h | ⟨fallL,-,h⟩
      · exact absurd h (labelAt_not_panicked htarget.2.1)
      · cases c <;> cases h

lemma emitSelectionBlock_panicked (hlink : Linked insts cfg) {base bi : ℕ} {st : σ} {b : BasicBlock}
    (hb : cfg.blocks[bi]? = some b) (h : emitSelectionBlock em cfg base st bi b = .error .panicked) :
    EmitFaults em := by
  rcases bind_eq_error.mp h with h | ⟨⟨st',code⟩,-,h⟩
  · exact .inl ⟨st,b,h⟩
  · rcases bind_eq_error.mp h with h | ⟨term,-,h⟩
    · exact emitTerminator_panicked hlink hb h
    · cases h

/-- A loop over the blocks panics where it does at one of them. -/
lemma emitEach_panicked {f : σ → ℕ → BasicBlock → Except RecompileError (σ × List (SpirvBlock β))}
    {P : Prop} {bi : ℕ} {bs : List BasicBlock}
    (hf : ∀ st i b, bs[i]? = some b → f st (bi+i) b = .error .panicked → P) {st : σ}
    (h : emitEach f st bi bs = .error .panicked) : P := by
  induction bs generalizing bi st with
  | nil => cases h
  | cons b bs ih =>
    rcases bind_eq_error.mp h with h | ⟨⟨st',chunk⟩,-,h⟩
    · exact hf st 0 b rfl h
    · rcases bind_eq_error.mp h with h | ⟨⟨st'',more⟩,-,h⟩
      · refine ih (fun st i c hc hpanic => hf st (i+1) c hc ?_) h
        rwa [← Nat.add_assoc,Nat.add_right_comm]
      · cases h

lemma loopTarget_not_panicked {li : LoopInfo} {base t : ℕ} (ht : ∃ k, cfg.blockIndexAt t = some k) :
    loopTarget cfg li base t ≠ .error .panicked := by
  unfold loopTarget
  split_ifs
  · simp
  · exact labelAt_not_panicked ht

lemma emitLoopBlock_panicked (hlink : Linked insts cfg) {li : LoopInfo} {base headerBi mergeL bi : ℕ}
    {negated : Bool} {st : σ} {b : BasicBlock} (hb : cfg.blocks[bi]? = some b)
    (h : emitLoopBlock em cfg li base headerBi mergeL negated st bi b = .error .panicked) :
    EmitFaults em := by
  unfold emitLoopBlock at h
  dsimp only at h
  split_ifs at h
  · rcases bind_eq_error.mp h with h | ⟨⟨st',code⟩,-,h⟩
    · exact .inl ⟨st,b,h⟩
    · rcases bind_eq_error.mp h with h | ⟨-,-,h⟩
      · exact .inr ⟨st',h⟩
      · cases h
  · rcases bind_eq_error.mp h with h | ⟨⟨st',code⟩,-,h⟩
    · exact .inl ⟨st,b,h⟩
    · have htarget := hlink.target hb
      dsimp only at h
      split at h
      · cases h
      · next t hterm =>
        rcases bind_eq_error.mp h with h | ⟨dst,-,h⟩
        · exact absurd h (loopTarget_not_panicked (htarget t (by simp [hterm,Terminator.targets])))
        · cases h
      · next t hterm =>
        rcases bind_eq_error.mp h with h | ⟨dst,-,h⟩
        · exact absurd h (loopTarget_not_panicked (htarget t (by simp [hterm,Terminator.targets])))
        · cases h
      · cases h

/-- The block of a back-edge is found again by its start. -/
lemma headerNegated_not_panicked (hlink : Linked insts cfg) {bi : ℕ} {li : LoopInfo}
    (hli : cfg.loopOf bi = some li) : ∃ k b, cfg.blockIndexAt li.backEdgeBlock = some k ∧
      cfg.blocks[k]? = some b ∧ headerNegated li b ≠ .error .panicked := by
  obtain ⟨b,hb,hterm,hstart,-⟩ := loopOf_eq_some hli
  refine ⟨bi,b,hstart ▸ hlink.unique bi b hb,hb,?_⟩
  unfold headerNegated
  rw [hterm]
  cases li.cond <;> simp [execBackEdge]

lemma emitLoopCfg_panicked (hlink : Linked insts cfg) {bi base : ℕ} {li : LoopInfo} {st : σ}
    (hli : cfg.loopOf bi = some li) (h : emitLoopCfg em cfg base st li = .error .panicked) :
    EmitFaults em := by
  obtain ⟨k,header,hk,hheader,hnegated⟩ := headerNegated_not_panicked hlink hli
  simp only [emitLoopCfg,hk,hheader] at h
  rcases bind_eq_error.mp h with h | ⟨negated,-,h⟩
  · exact absurd h hnegated
  rcases bind_eq_error.mp h with h | ⟨mergeL,-,h⟩
  · exact absurd h (labelAt_not_panicked (hlink.merge bi li hli))
  · refine emitEach_panicked (fun st i b hb hpanic => ?_) h
    rw [Nat.zero_add] at hpanic
    exact emitLoopBlock_panicked hlink hb hpanic

/-- The labels of all blocks are found. -/
theorem emitCfg_panicked (hlink : Linked insts cfg) {base : ℕ} {st : σ}
    (h : emitCfg em cfg base st = .error .panicked) : EmitFaults em := by
  unfold emitCfg at h
  split at h
  · next li hli =>
    obtain ⟨bi,-,hli⟩ := List.exists_of_findSome?_eq_some hli
    exact emitLoopCfg_panicked hlink hli h
  · refine emitEach_panicked (fun st i b hb hpanic => ?_) h
    rw [Nat.zero_add] at hpanic
    exact emitSelectionBlock_panicked hlink hb hpanic

end Recompiler

lemma decodeAll_contiguous (code : List Word) : Contiguous (decodeAll code) :=
  (decodeFrom_contiguous code.length 0 code).1

theorem decodeAll_blocks (code : List Word) :
    buildCfg (decodeAll code) ≠ .error .panicked ∧
      ∀ cfg, buildCfg (decodeAll code) = .ok cfg →
        WellFormed (live (decodeAll code)) cfg ∧
        (∀ E w, executeCfg E (decodeAll code) cfg w = .error .panicked → Faults E (decodeAll code)) ∧
        ∀ (σ β : Type) (em : BodyEmitter σ β) base st,
          emitCfg em cfg base st = .error .panicked → EmitFaults em := by
  have hs := decodeAll_contiguous code
  refine ⟨buildCfg_not_panicked hs,fun cfg hcfg => ?_⟩
  have hlink := buildCfg_linked hs hcfg
  refine ⟨buildCfg_wellFormed hs hcfg,fun E w => executeCfg_panicked hlink,?_⟩
  exact fun σ β em base st => emitCfg_panicked hlink

/-- `s_cbranch_vccz` over an `s_nop`, and `s_endpgm`. -/
def skipCode : List Word := [0xbf860001,0xbf800000,0xbf810000]

def skipCfg : Cfg :=
  ⟨[⟨0,[0],.cond .vccz 2 1⟩,⟨1,[1],.fallthrough 2⟩,⟨2,[2],.ret⟩]⟩

theorem decodeAll_blocks_skip : buildCfg (decodeAll skipCode) = .ok skipCfg ∧
    WellFormed (live (decodeAll skipCode)) skipCfg :=
  have hcfg : buildCfg (decodeAll skipCode) = .ok skipCfg := by decide +kernel
  ⟨hcfg,((decodeAll_blocks skipCode).2 skipCfg hcfg).1⟩

end Unemups4.Gcn
