import Unemups4.SpirvWalk

/-! When the emitted label graph is faithful to the CFG: always without a loop, and
with one exactly when the back-edge block is the loop header itself (or the loop is
dead code that nothing names). -/
namespace Unemups4.Gcn
open Fallible

variable {σ β : Type}

lemma find?_label_of_nodup {bs : List (SpirvBlock β)} (hnodup : (bs.map (·.label)).Nodup)
    {x : SpirvBlock β} (hx : x ∈ bs) : bs.find? (fun b => b.label == x.label) = some x := by
  induction bs with
  | nil => simp at hx
  | cons b bs ih =>
    rw [List.map_cons, List.nodup_cons] at hnodup
    rcases List.mem_cons.mp hx with rfl | hx
    · simp
    · have hne : b.label ≠ x.label := fun heq =>
        hnodup.1 (heq ▸ List.mem_map_of_mem hx)
      rw [List.find?_cons_of_neg (by simpa using hne)]
      exact ih hnodup.2 hx

section Each

variable {f : σ → ℕ → BasicBlock → Except RecompileError (σ × List (SpirvBlock β))}

lemma emitEach_chunk {st st' : σ} {k : ℕ} {blocks : List BasicBlock} {bs : List (SpirvBlock β)}
    (h : emitEach f st k blocks = .ok (st',bs)) {i : ℕ} {b : BasicBlock}
    (hb : blocks[i]? = some b) :
    ∃ s s' c, f s (k+i) b = .ok (s',c) ∧ ∀ x ∈ c, x ∈ bs := by
  induction blocks generalizing st k bs i with
  | nil => simp at hb
  | cons block blocks ih =>
    obtain ⟨⟨s1,chunk⟩,hchunk,h⟩ := bind_eq_ok.mp h
    obtain ⟨⟨s2,more⟩,hmore,h⟩ := bind_eq_ok.mp h
    cases h
    cases i with
    | zero =>
      cases hb
      exact ⟨st,s1,chunk,hchunk,fun x hx => List.mem_append_left _ hx⟩
    | succ i =>
      obtain ⟨s,s',c,hc,hsub⟩ := ih hmore hb
      refine ⟨s,s',c,?_,fun x hx => List.mem_append_right _ (hsub x hx)⟩
      rwa [show k+(i+1) = k+1+i by omega]

lemma emitEach_origin {st st' : σ} {k : ℕ} {blocks : List BasicBlock} {bs : List (SpirvBlock β)}
    (h : emitEach f st k blocks = .ok (st',bs)) {x : SpirvBlock β} (hx : x ∈ bs) :
    ∃ (i : ℕ) (b : BasicBlock) (s s' : σ) (c : List (SpirvBlock β)),
      blocks[i]? = some b ∧ f s (k+i) b = .ok (s',c) ∧ x ∈ c := by
  induction blocks generalizing st k bs with
  | nil =>
    cases h
    simp at hx
  | cons block blocks ih =>
    obtain ⟨⟨s1,chunk⟩,hchunk,h⟩ := bind_eq_ok.mp h
    obtain ⟨⟨s2,more⟩,hmore,h⟩ := bind_eq_ok.mp h
    cases h
    rcases List.mem_append.mp hx with hx | hx
    · exact ⟨0,block,st,s1,chunk,rfl,hchunk,hx⟩
    · obtain ⟨i,b,s,s',c,hb,hc,hxc⟩ := ih hmore hx
      refine ⟨i+1,b,s,s',c,hb,?_,hxc⟩
      rwa [show k+(i+1) = k+1+i by omega]

lemma emitEach_labels (labs : ℕ → List ℕ)
    (hf : ∀ s bi b s' c, f s bi b = .ok (s',c) → c.map (·.label) = labs bi) {st st' : σ} {k : ℕ}
    {blocks : List BasicBlock} {bs : List (SpirvBlock β)}
    (h : emitEach f st k blocks = .ok (st',bs)) :
    bs.map (·.label) = (List.range' k blocks.length).flatMap labs := by
  induction blocks generalizing st k bs with
  | nil =>
    cases h
    rfl
  | cons block blocks ih =>
    obtain ⟨⟨s1,chunk⟩,hchunk,h⟩ := bind_eq_ok.mp h
    obtain ⟨⟨s2,more⟩,hmore,h⟩ := bind_eq_ok.mp h
    cases h
    rw [List.map_append, hf _ _ _ _ _ hchunk, ih hmore, List.length_cons, List.range'_succ,
      List.flatMap_cons]

end Each

lemma blockIndexAt_lt {cfg : Cfg} {x k : ℕ} (h : cfg.blockIndexAt x = some k) :
    k < cfg.blocks.length := by
  obtain ⟨b,hb,-⟩ := blockIndexAt_eq_some h
  exact (List.getElem?_eq_some_iff.mp hb).1

lemma labelAt_ok {cfg : Cfg} {base start l : ℕ} (h : labelAt cfg base start = .ok l) :
    ∃ i, cfg.blockIndexAt start = some i ∧ l = base+i := by
  unfold labelAt at h
  split at h
  · rename_i i hi
    cases h
    exact ⟨i,hi,rfl⟩
  · cases h

/-- The labels of blocks lowered one to one. -/
lemma emitTerminator_ok {em : BodyEmitter σ β} {cfg : Cfg} {base bi : ℕ} {st : σ}
    {block : BasicBlock} {term : SpirvTerm} (h : emitTerminator em cfg base st bi block = .ok term) :
    Lowers cfg {k | k < cfg.blocks.length} (fun j => base+j) block.terminator term ∧
      ∀ l ∈ term.labels, ∃ j < cfg.blocks.length, l = base+j := by
  unfold emitTerminator at h
  split at h
  · rename_i ht
    cases h
    rw [ht]
    exact ⟨.ret,by simp [SpirvTerm.labels]⟩
  · rename_i target ht
    obtain ⟨l,hl,h⟩ := bind_eq_ok.mp h
    cases h
    obtain ⟨j,hj,rfl⟩ := labelAt_ok hl
    rw [ht]
    exact ⟨.fallthrough hj (blockIndexAt_lt hj),
      by simpa [SpirvTerm.labels] using blockIndexAt_lt hj⟩
  · rename_i target ht
    obtain ⟨l,hl,h⟩ := bind_eq_ok.mp h
    cases h
    obtain ⟨j,hj,rfl⟩ := labelAt_ok hl
    rw [ht]
    exact ⟨.branch hj (blockIndexAt_lt hj),
      by simpa [SpirvTerm.labels] using blockIndexAt_lt hj⟩
  · rename_i cond taken fall ht
    obtain ⟨_,-,h⟩ := bind_eq_ok.mp h
    split at h
    · cases h
    · obtain ⟨merge,hmerge,h⟩ := bind_eq_ok.mp h
      obtain ⟨takeL,htake,h⟩ := bind_eq_ok.mp h
      obtain ⟨fallL,hfall,h⟩ := bind_eq_ok.mp h
      obtain ⟨m,hm,rfl⟩ := labelAt_ok hmerge
      obtain ⟨j,hj,rfl⟩ := labelAt_ok htake
      obtain ⟨k,hk,rfl⟩ := labelAt_ok hfall
      have hmlt := blockIndexAt_lt hm
      have hjlt := blockIndexAt_lt hj
      have hklt := blockIndexAt_lt hk
      rw [ht]
      cases cond with
      | vccz =>
        cases h
        exact ⟨.vccz hj hjlt hk hklt,by simp [SpirvTerm.labels, hmlt, hjlt, hklt]⟩
      | vccnz =>
        cases h
        exact ⟨.vccnz hj hjlt hk hklt,by simp [SpirvTerm.labels, hmlt, hjlt, hklt]⟩
      | execz =>
        cases h
        exact ⟨.execz hk hklt,by simp [SpirvTerm.labels, hklt]⟩
      | execnz =>
        cases h
        exact ⟨.execnz hj hjlt,by simp [SpirvTerm.labels, hjlt]⟩

lemma emitSelectionBlock_ok {em : BodyEmitter σ β} {cfg : Cfg} {base bi : ℕ} {st st' : σ}
    {block : BasicBlock} {c : List (SpirvBlock β)}
    (h : emitSelectionBlock em cfg base st bi block = .ok (st',c)) :
    ∃ code term, c = [⟨base+bi,some (bi,code),term⟩] ∧
      ∃ st1, emitTerminator em cfg base st1 bi block = .ok term := by
  obtain ⟨⟨st1,code⟩,-,h⟩ := bind_eq_ok.mp h
  obtain ⟨term,hterm,h⟩ := bind_eq_ok.mp h
  cases h
  exact ⟨code,term,rfl,_,hterm⟩

/-- The two walks start in step when every block of `S` is lowered and `S` holds the
entry. -/
lemma sameWalk_of_simulated {cfg : Cfg} {bs : List (SpirvBlock β)} (S : Set ℕ) (lab : ℕ → ℕ)
    (hS : ∀ bi ∈ S, Straight cfg bs S lab bi ∨ Scaffold cfg bs S lab bi) (h0 : 0 ∈ S)
    (hhead : bs.head?.map (·.label) = some (lab 0)) : SameWalk cfg bs := by
  obtain ⟨b,hb,hlab⟩ := Option.map_eq_some_iff.mp hhead
  intro vccs tr
  simp only [hb, Option.elim_some, hlab]
  constructor
  · rintro ⟨n,rfl⟩
    exact cfgTrace_simulated hS n h0 vccs
  · rintro ⟨m,rfl⟩
    exact spirvTrace_simulated hS m h0 vccs

lemma labelsDefined_of_mem {bs : List (SpirvBlock β)} (hnodup : (bs.map (·.label)).Nodup)
    (hmem : ∀ b ∈ bs, ∀ l ∈ b.term.labels, l ∈ bs.map (·.label)) : LabelsDefined bs :=
  fun b hb l hl => List.count_eq_one_of_mem hnodup (hmem b hb l hl)

lemma sameWalk_nil {cfg : Cfg} (hcfg : cfg.blocks = []) : SameWalk cfg ([] : List (SpirvBlock β)) := by
  intro vccs tr
  have htrace : ∀ n, cfgTrace cfg n 0 vccs = [] := by
    intro n
    cases n <;> simp [cfgTrace, hcfg]
  simp [htrace]

theorem emitEach_selection_faithful {em : BodyEmitter σ β} {cfg : Cfg} {base : ℕ} {st st' : σ}
    {bs : List (SpirvBlock β)}
    (h : emitEach (emitSelectionBlock em cfg base) st 0 cfg.blocks = .ok (st',bs)) :
    LabelsDefined bs ∧ SameWalk cfg bs := by
  have hlabels : bs.map (·.label) = (List.range' 0 cfg.blocks.length).map (fun i => base+i) := by
    have hchunk : ∀ s bi b s' c, emitSelectionBlock em cfg base s bi b = .ok (s',c) →
        c.map (·.label) = [base+bi] := by
      intro s bi b s' c hc
      obtain ⟨code,term,rfl,-⟩ := emitSelectionBlock_ok hc
      rfl
    rw [emitEach_labels (fun bi => [base+bi]) hchunk h, List.map_eq_flatMap]
  have hnodup : (bs.map (·.label)).Nodup := by
    rw [hlabels]
    exact (List.nodup_range').map (fun a b hab => by simpa using hab)
  have hlabmem : ∀ j < cfg.blocks.length, base+j ∈ bs.map (·.label) := by
    intro j hj
    rw [hlabels]
    exact List.mem_map_of_mem (by simpa using hj)
  constructor
  · refine labelsDefined_of_mem hnodup ?_
    intro x hx l hl
    obtain ⟨i,b,s,s',c,hb,hc,hxc⟩ := emitEach_origin h hx
    obtain ⟨code,term,rfl,st1,hterm⟩ := emitSelectionBlock_ok hc
    obtain rfl := List.mem_singleton.mp hxc
    obtain ⟨j,hj,rfl⟩ := (emitTerminator_ok hterm).2 l hl
    exact hlabmem j hj
  · by_cases hempty : cfg.blocks = []
    · rw [hempty] at h
      cases h
      exact sameWalk_nil hempty
    · have hpos : 0 < cfg.blocks.length := List.length_pos_iff.mpr hempty
      refine sameWalk_of_simulated {k | k < cfg.blocks.length} (fun j => base+j) ?_ hpos ?_
      · intro bi hbi
        obtain ⟨b,hb⟩ : ∃ b, cfg.blocks[bi]? = some b := ⟨_,List.getElem?_eq_getElem hbi⟩
        obtain ⟨s,s',c,hc,hsub⟩ := emitEach_chunk h hb
        rw [Nat.zero_add] at hc
        obtain ⟨code,term,rfl,st1,hterm⟩ := emitSelectionBlock_ok hc
        have hx := hsub _ (List.mem_singleton_self _)
        exact .inl ⟨b,code,term,hb,(emitTerminator_ok hterm).1,find?_label_of_nodup hnodup hx⟩
      · rw [← List.head?_map, hlabels]
        obtain ⟨n,hn⟩ := Nat.exists_eq_succ_of_ne_zero hpos.ne'
        simp [hn, List.range'_succ]

/-- The terminator a straight-line block of a loop CFG gets: jumps to the loop header
go to the scaffold. -/
inductive LoopTerm (cfg : Cfg) (li : LoopInfo) (base : ℕ) : Terminator → SpirvTerm → Prop
  | ret : LoopTerm cfg li base .ret .ret
  | header {t : Terminator} : t.targets = [li.header] → (∀ c x y, t ≠ .cond c x y) →
      LoopTerm cfg li base t (.branch (base+cfg.blocks.length))
  | goto {t : Terminator} {target j : ℕ} : t.targets = [target] → (∀ c x y, t ≠ .cond c x y) →
      target ≠ li.header → cfg.blockIndexAt target = some j →
      LoopTerm cfg li base t (.branch (base+j))

lemma loopTarget_ok {cfg : Cfg} {li : LoopInfo} {base target dst : ℕ} {t : Terminator}
    (ht : t.targets = [target]) (hcond : ∀ c x y, t ≠ .cond c x y)
    (h : loopTarget cfg li base target = .ok dst) : LoopTerm cfg li base t (.branch dst) := by
  unfold loopTarget at h
  split_ifs at h with heq
  · cases h
    exact .header (heq ▸ ht) hcond
  · obtain ⟨j,hj,rfl⟩ := labelAt_ok h
    exact .goto ht hcond heq hj

lemma emitLoopBlock_header {em : BodyEmitter σ β} {cfg : Cfg} {li : LoopInfo}
    {base be mergeL : ℕ} {negated : Bool} {st st' : σ} {b : BasicBlock} {c : List (SpirvBlock β)}
    (h : emitLoopBlock em cfg li base be mergeL negated st be b = .ok (st',c)) :
    ∃ code, c = [⟨base+cfg.blocks.length,none,
        .loopHeader mergeL (base+cfg.blocks.length+2) (base+cfg.blocks.length+1)⟩,
      ⟨base+cfg.blocks.length+1,some (be,code),.branch (base+cfg.blocks.length+2)⟩,
      ⟨base+cfg.blocks.length+2,none,
        .branchConditional negated (base+cfg.blocks.length) mergeL⟩] := by
  simp only [emitLoopBlock, if_true] at h
  obtain ⟨⟨s1,code⟩,-,h⟩ := bind_eq_ok.mp h
  obtain ⟨_,-,h⟩ := bind_eq_ok.mp h
  cases h
  exact ⟨code,rfl⟩

lemma emitLoopBlock_straight {em : BodyEmitter σ β} {cfg : Cfg} {li : LoopInfo}
    {base be bi mergeL : ℕ} {negated : Bool} {st st' : σ} {b : BasicBlock}
    {c : List (SpirvBlock β)} (hne : bi ≠ be)
    (h : emitLoopBlock em cfg li base be mergeL negated st bi b = .ok (st',c)) :
    ∃ code term, c = [⟨base+bi,some (bi,code),term⟩] ∧ LoopTerm cfg li base b.terminator term := by
  simp only [emitLoopBlock, if_neg hne] at h
  obtain ⟨⟨s1,code⟩,-,h⟩ := bind_eq_ok.mp h
  split at h
  · rename_i ht
    cases h
    exact ⟨code,.ret,rfl,ht ▸ .ret⟩
  · rename_i target ht
    obtain ⟨dst,hdst,h⟩ := bind_eq_ok.mp h
    cases h
    exact ⟨code,.branch dst,rfl,ht ▸ loopTarget_ok rfl (by simp) hdst⟩
  · rename_i target ht
    obtain ⟨dst,hdst,h⟩ := bind_eq_ok.mp h
    cases h
    exact ⟨code,.branch dst,rfl,ht ▸ loopTarget_ok rfl (by simp) hdst⟩
  · cases h

/-- A loop CFG emitted around the back-edge block `be`, whose header is block `hi`. -/
structure LoopEmission (cfg : Cfg) (li : LoopInfo) (base hi be mi : ℕ) (negated : Bool)
    (bs : List (SpirvBlock β)) : Prop where
  header : cfg.blockIndexAt li.header = some hi
  backEdge : ∃ b, cfg.blocks[be]? = some b ∧ b.start = li.backEdgeBlock ∧
    b.terminator = .cond (if negated then .vccz else .vccnz) li.header li.merge
  merge : cfg.blockIndexAt li.merge = some mi
  merge_ne : mi ≠ be
  merge_header : mi ≠ hi
  pos : 0 < hi
  le : hi ≤ be
  unique : ∀ {x y i : ℕ}, cfg.blockIndexAt x = some i → cfg.blockIndexAt y = some i → x = y
  index : ∀ {i : ℕ} {b : BasicBlock}, cfg.blocks[i]? = some b → cfg.blockIndexAt b.start = some i
  labels : bs.map (·.label) = (List.range' 0 cfg.blocks.length).flatMap (fun bi =>
    if bi = be then [base+cfg.blocks.length,base+cfg.blocks.length+1,base+cfg.blocks.length+2]
    else [base+bi])
  straight : ∀ {bi : ℕ} {b : BasicBlock}, cfg.blocks[bi]? = some b → bi ≠ be →
    ∃ code term, ⟨base+bi,some (bi,code),term⟩ ∈ bs ∧ LoopTerm cfg li base b.terminator term
  scaffold : ∃ code,
    ⟨base+cfg.blocks.length,none,
      .loopHeader (base+mi) (base+cfg.blocks.length+2) (base+cfg.blocks.length+1)⟩ ∈ bs ∧
    ⟨base+cfg.blocks.length+1,some (be,code),.branch (base+cfg.blocks.length+2)⟩ ∈ bs ∧
    ⟨base+cfg.blocks.length+2,none,
      .branchConditional negated (base+cfg.blocks.length) (base+mi)⟩ ∈ bs
  origin : ∀ {x : SpirvBlock β}, x ∈ bs →
    (∃ (i : ℕ) (b : BasicBlock), cfg.blocks[i]? = some b ∧ i ≠ be ∧
      LoopTerm cfg li base b.terminator x.term) ∨
    ∀ l ∈ x.term.labels, l = base+mi ∨ l = base+cfg.blocks.length ∨
      l = base+cfg.blocks.length+1 ∨ l = base+cfg.blocks.length+2

theorem emitLoopCfg_emission {em : BodyEmitter σ β} {s : List Decoded} {cfg : Cfg} {hi bi : ℕ}
    {li : LoopInfo} {d : Decoded} (hback : BackEdge s cfg hi bi li d) {base : ℕ} {st st' : σ}
    {bs : List (SpirvBlock β)} (h : emitLoopCfg em cfg base st li = .ok (st',bs)) :
    ∃ negated, LoopEmission cfg li base hi bi (bi+1) negated bs := by
  obtain ⟨b,hb,hterm,hbe,hle⟩ := loopOf_eq_some hback.loop
  have hbidx : cfg.blockIndexAt li.backEdgeBlock = some bi := by
    rw [hbe, hback.layout.blockIndexAt hb]
  obtain ⟨hblk,hhb,hstart⟩ := hback.header
  obtain ⟨m,hm,hmstart⟩ := hback.merge
  have hmidx : cfg.blockIndexAt li.merge = some (bi+1) := by
    rw [← hmstart, hback.layout.blockIndexAt hm]
  simp only [emitLoopCfg, hbidx, hb] at h
  obtain ⟨negated,hneg,h⟩ := bind_eq_ok.mp h
  obtain ⟨mergeL,hmerge,h⟩ := bind_eq_ok.mp h
  obtain ⟨mi,hmi,rfl⟩ := labelAt_ok hmerge
  obtain rfl : bi+1 = mi := Option.some.inj (hmidx.symm.trans hmi)
  have hpol : li.cond = if negated then .vccz else .vccnz := by
    simp only [headerNegated, hterm] at hneg
    cases hc : li.cond <;> rw [hc] at hneg <;> cases hneg <;> rfl
  refine ⟨negated,⟨by rw [← hstart, hback.layout.blockIndexAt hhb],⟨b,hb,hbe.symm,hpol ▸ hterm⟩,hmi,
    by omega,?_,hback.pos,hback.le,?_,hback.layout.blockIndexAt,?_,?_,?_,?_⟩⟩
  · have := hback.le
    omega
  · intro x y i hx hy
    obtain ⟨b1,hb1,rfl⟩ := blockIndexAt_eq_some hx
    obtain ⟨b2,hb2,rfl⟩ := blockIndexAt_eq_some hy
    rw [hb1] at hb2
    cases hb2
    rfl
  · refine emitEach_labels _ ?_ h
    intro s k b s' c hc
    by_cases hk : k = bi
    · subst hk
      obtain ⟨code,rfl⟩ := emitLoopBlock_header hc
      simp
    · obtain ⟨code,term,rfl,-⟩ := emitLoopBlock_straight hk hc
      simp [hk]
  · intro k b hb hk
    obtain ⟨s,s',c,hc,hsub⟩ := emitEach_chunk h hb
    rw [Nat.zero_add] at hc
    obtain ⟨code,term,rfl,hlt⟩ := emitLoopBlock_straight hk hc
    exact ⟨code,term,hsub _ (List.mem_singleton_self _),hlt⟩
  · obtain ⟨s,s',c,hc,hsub⟩ := emitEach_chunk h hb
    rw [Nat.zero_add] at hc
    obtain ⟨code,rfl⟩ := emitLoopBlock_header hc
    exact ⟨code,hsub _ (by simp),hsub _ (by simp),hsub _ (by simp)⟩
  · intro x hx
    obtain ⟨k,b,s,s',c,hb,hc,hxc⟩ := emitEach_origin h hx
    rw [Nat.zero_add] at hc
    by_cases hk : k = bi
    · subst hk
      obtain ⟨code,rfl⟩ := emitLoopBlock_header hc
      refine .inr ?_
      rcases List.mem_cons.mp hxc with rfl | hxc
      · simp [SpirvTerm.labels]
      rcases List.mem_cons.mp hxc with rfl | hxc
      · simp [SpirvTerm.labels]
      · obtain rfl := List.mem_singleton.mp hxc
        simp [SpirvTerm.labels]
    · obtain ⟨code,term,rfl,hlt⟩ := emitLoopBlock_straight hk hc
      obtain rfl := List.mem_singleton.mp hxc
      exact .inl ⟨k,b,hb,hk,hlt⟩

namespace LoopEmission

variable {cfg : Cfg} {li : LoopInfo} {base hi be mi : ℕ} {negated : Bool} {bs : List (SpirvBlock β)}

/-- The label a jump to block `j` names. -/
def lab (cfg : Cfg) (base hi j : ℕ) : ℕ :=
  if j = hi then base+cfg.blocks.length else base+j

lemma be_lt (h : LoopEmission cfg li base hi be mi negated bs) : be < cfg.blocks.length := by
  obtain ⟨b,hb,-⟩ := h.backEdge
  exact (List.getElem?_eq_some_iff.mp hb).1

lemma mem_labels (h : LoopEmission cfg li base hi be mi negated bs) {l : ℕ} :
    l ∈ bs.map (·.label) ↔ (∃ k < cfg.blocks.length, k ≠ be ∧ l = base+k) ∨
      l = base+cfg.blocks.length ∨ l = base+cfg.blocks.length+1 ∨ l = base+cfg.blocks.length+2 := by
  rw [h.labels, List.mem_flatMap]
  constructor
  · rintro ⟨k,hk,hl⟩
    split_ifs at hl with hbe
    · exact .inr (by simpa using hl)
    · exact .inl ⟨k,by simpa using hk,hbe,by simpa using hl⟩
  · rintro (⟨k,hk,hbe,rfl⟩ | hl)
    · exact ⟨k,by simpa using hk,by simp [hbe]⟩
    · exact ⟨be,by simpa using h.be_lt,by simpa using hl⟩

lemma nodup (h : LoopEmission cfg li base hi be mi negated bs) : (bs.map (·.label)).Nodup := by
  rw [h.labels, List.nodup_flatMap]
  constructor
  · intro k hk
    split_ifs <;> simp
  · refine List.Pairwise.imp_of_mem ?_ (List.nodup_range' (s := 0) (n := cfg.blocks.length))
    intro i j hi' hj hne
    simp only [List.mem_range'_1] at hi' hj
    simp only [Function.onFun, List.disjoint_left]
    intro l hl
    split_ifs at hl ⊢ <;> simp_all <;> omega

lemma head_label (h : LoopEmission cfg li base hi be mi negated bs) :
    bs.head?.map (·.label) = some (lab cfg base hi 0) := by
  obtain ⟨n,hn⟩ := Nat.exists_eq_succ_of_ne_zero (Nat.ne_zero_of_lt h.be_lt)
  have hpos := h.pos
  have hle := h.le
  rw [← List.head?_map, h.labels, hn, List.range'_succ, List.flatMap_cons]
  simp [lab, show ¬ 0 = be by omega, show ¬ 0 = hi by omega]

lemma targets_singleton {t : Terminator} {x : ℕ} (ht : t.targets = [x])
    (hcond : ∀ c y z, t ≠ .cond c y z) : t = .fallthrough x ∨ t = .branch x := by
  cases t with
  | fallthrough y => simpa [Terminator.targets] using ht
  | branch y => simpa [Terminator.targets] using ht
  | cond c y z => exact absurd rfl (hcond c y z)
  | ret => simp [Terminator.targets] at ht

lemma lowers (h : LoopEmission cfg li base hi be mi negated bs) {S : Set ℕ} {t : Terminator}
    {term : SpirvTerm} (ht : LoopTerm cfg li base t term)
    (hS : ∀ x ∈ t.targets, ∀ j, cfg.blockIndexAt x = some j → j ∈ S) :
    Lowers cfg S (lab cfg base hi) t term := by
  have hgoto : ∀ {x j : ℕ}, t.targets = [x] → (∀ c y z, t ≠ .cond c y z) →
      cfg.blockIndexAt x = some j → Lowers cfg S (lab cfg base hi) t (.branch (lab cfg base hi j)) := by
    intro x j hx hcond hj
    have hjS := hS x (by simp [hx]) j hj
    rcases targets_singleton hx hcond with rfl | rfl
    · exact .fallthrough hj hjS
    · exact .branch hj hjS
  cases ht with
  | ret => exact .ret
  | header hx hcond => simpa [lab] using hgoto hx hcond h.header
  | goto hx hcond hne hj =>
    have hjne : ¬ _ = hi := fun heq => hne (h.unique (heq ▸ hj) h.header)
    simpa [lab, hjne] using hgoto hx hcond hj

lemma straight_lowered (h : LoopEmission cfg li base hi be mi negated bs) {S : Set ℕ} {bi : ℕ}
    {b : BasicBlock} (hb : cfg.blocks[bi]? = some b) (hbe : bi ≠ be) (hhi : bi ≠ hi)
    (hS : ∀ x ∈ b.terminator.targets, ∀ j, cfg.blockIndexAt x = some j → j ∈ S) :
    Straight cfg bs S (lab cfg base hi) bi := by
  obtain ⟨code,term,hmem,hterm⟩ := h.straight hb hbe
  have hlab : lab cfg base hi bi = base+bi := by simp [lab, hhi]
  refine ⟨b,code,term,hb,h.lowers hterm hS,?_⟩
  rw [hlab]
  exact find?_label_of_nodup h.nodup hmem

lemma scaffold_lowered (h : LoopEmission cfg li base hi be mi negated bs) (hfused : hi = be)
    {S : Set ℕ} (hhi : hi ∈ S) (hmi : mi ∈ S) : Scaffold cfg bs S (lab cfg base hi) be := by
  obtain ⟨b,hb,-,hterm⟩ := h.backEdge
  obtain ⟨code,hhead,hbody,hcont⟩ := h.scaffold
  have hlab : lab cfg base hi hi = base+cfg.blocks.length := by simp [lab]
  have hmlab : lab cfg base hi mi = base+mi := by simp [lab, h.merge_header]
  have hhead' := find?_label_of_nodup h.nodup hhead
  have hbody' := find?_label_of_nodup h.nodup hbody
  have hcont' := find?_label_of_nodup h.nodup hcont
  subst hfused
  refine ⟨b,code,base+mi,_,_,hi,mi,negated,_,_,hb,hterm,h.header,hhi,h.merge,hmi,?_,hbody',?_⟩
  · rw [hlab]
    exact hhead'
  · rw [hlab, hmlab]
    exact hcont'

/-- Every name is defined exactly when no jump names the back-edge block's own label. -/
theorem labelsDefined_iff (h : LoopEmission cfg li base hi be mi negated bs) :
    LabelsDefined bs ↔ ∀ (i : ℕ) (b : BasicBlock), cfg.blocks[i]? = some b → i ≠ be →
      ∀ x ∈ b.terminator.targets, x ≠ li.header → cfg.blockIndexAt x ≠ some be := by
  constructor
  · intro hdef i b hb hi' x hx hxh hxbe
    obtain ⟨code,term,hmem,hterm⟩ := h.straight hb hi'
    have hname : base+be ∈ term.labels := by
      generalize b.terminator = t at hx hterm
      cases hterm with
      | ret => simp [Terminator.targets] at hx
      | header ht =>
        rw [ht] at hx
        exact absurd (List.mem_singleton.mp hx) hxh
      | goto ht _ _ hj =>
        rw [ht] at hx
        obtain rfl := List.mem_singleton.mp hx
        rw [hxbe] at hj
        cases hj
        simp [SpirvTerm.labels]
    have hcount := hdef _ hmem _ hname
    have hin : base+be ∈ bs.map (·.label) := List.count_pos_iff.mp (by omega)
    have := h.be_lt
    rcases h.mem_labels.mp hin with ⟨k,hk,hne,heq⟩ | heq
    · omega
    · omega
  · intro hno
    have hmerge := blockIndexAt_lt h.merge
    refine labelsDefined_of_mem h.nodup ?_
    intro x hx l hl
    rw [h.mem_labels]
    rcases h.origin hx with ⟨i,b,hb,hi',hterm⟩ | hscaffold
    · have hentry := hno i b hb hi'
      generalize x.term = term at hterm hl
      generalize b.terminator = t at hterm hentry
      cases hterm with
      | ret => simp [SpirvTerm.labels] at hl
      | header => exact .inr (.inl (by simpa [SpirvTerm.labels] using hl))
      | @goto _ target j ht _ hne hj =>
        have hjbe : j ≠ be := fun heq =>
          hentry target (by simp [ht]) hne (heq ▸ hj)
        exact .inl ⟨j,blockIndexAt_lt hj,hjbe,by simpa [SpirvTerm.labels] using hl⟩
    · rcases hscaffold l hl with rfl | hl
      · exact .inl ⟨mi,hmerge,h.merge_ne,rfl⟩
      · exact .inr hl

theorem faithful_of_fused (h : LoopEmission cfg li base hi be mi negated bs) (hfused : hi = be) :
    LabelsDefined bs ∧ SameWalk cfg bs := by
  obtain ⟨b,hb,-,-⟩ := h.backEdge
  have hbelt := h.be_lt
  constructor
  · rw [h.labelsDefined_iff]
    intro i b hb hi' x hx hxh hxbe
    exact hxh (h.unique hxbe (hfused ▸ h.header))
  · refine sameWalk_of_simulated {k | k < cfg.blocks.length} (lab cfg base hi) ?_
      (Nat.lt_of_le_of_lt (Nat.zero_le _) hbelt) h.head_label
    intro bi hbi
    by_cases hbe : bi = be
    · subst hbe
      exact .inr (h.scaffold_lowered hfused (blockIndexAt_lt h.header) (blockIndexAt_lt h.merge))
    · obtain ⟨b',hb'⟩ : ∃ b, cfg.blocks[bi]? = some b := ⟨_,List.getElem?_eq_getElem hbi⟩
      exact .inl (h.straight_lowered hb' hbe (hfused ▸ hbe) (fun x _ j hj => blockIndexAt_lt hj))

/-- No other block targets the back-edge block, and the header is unreachable. -/
def Dead (cfg : Cfg) (li : LoopInfo) : Prop :=
  (∀ b ∈ cfg.blocks, b.start ≠ li.backEdgeBlock → li.backEdgeBlock ∉ b.terminator.targets) ∧
    ∀ hi, cfg.blockIndexAt li.header = some hi → ¬ Relation.ReflTransGen cfg.Edge 0 hi

lemma backEdge_index (h : LoopEmission cfg li base hi be mi negated bs) :
    cfg.blockIndexAt li.backEdgeBlock = some be := by
  obtain ⟨b,hb,hstart,-⟩ := h.backEdge
  rw [← hstart]
  exact h.index hb

/-- In a split loop the label condition says that nothing targets the back-edge block. -/
lemma labelsDefined_iff_of_split (h : LoopEmission cfg li base hi be mi negated bs)
    (hsplit : hi ≠ be) : LabelsDefined bs ↔
      ∀ b ∈ cfg.blocks, b.start ≠ li.backEdgeBlock → li.backEdgeBlock ∉ b.terminator.targets := by
  rw [h.labelsDefined_iff]
  have hne : li.backEdgeBlock ≠ li.header := by
    intro heq
    have := h.backEdge_index
    rw [heq, h.header] at this
    exact hsplit (Option.some.inj this)
  constructor
  · intro hno b hb hstart hmem
    obtain ⟨i,hi'⟩ := List.mem_iff_getElem?.mp hb
    have hibe : i ≠ be := by
      rintro rfl
      exact hstart (h.unique (h.index hi') h.backEdge_index)
    exact hno i b hi' hibe _ hmem hne h.backEdge_index
  · intro hno i b hb hibe x hx hxh hxbe
    obtain rfl := h.unique hxbe h.backEdge_index
    refine hno b (List.mem_of_getElem? hb) ?_ hx
    intro hstart
    have := h.index hb
    rw [hstart, h.backEdge_index] at this
    exact hibe (Option.some.inj this).symm

lemma edge_target (h : LoopEmission cfg li base hi be mi negated bs) {i j : ℕ}
    (hij : cfg.Edge i j) :
    ∃ b x, cfg.blocks[i]? = some b ∧ x ∈ b.terminator.targets ∧ cfg.blockIndexAt x = some j := by
  obtain ⟨b,c,hb,hc,hmem⟩ := hij
  exact ⟨b,c.start,hb,hmem,h.index hc⟩

lemma edge_of_target {i j x : ℕ} {b : BasicBlock} (hb : cfg.blocks[i]? = some b)
    (hx : x ∈ b.terminator.targets) (hj : cfg.blockIndexAt x = some j) : cfg.Edge i j := by
  obtain ⟨c,hc,rfl⟩ := blockIndexAt_eq_some hj
  exact ⟨b,c,hb,hc,hx⟩

theorem faithful_of_dead (h : LoopEmission cfg li base hi be mi negated bs) (hsplit : hi ≠ be)
    (hdead : Dead cfg li) : LabelsDefined bs ∧ SameWalk cfg bs := by
  have hdef := (h.labelsDefined_iff_of_split hsplit).mpr hdead.1
  have hpos := h.pos
  have hle := h.le
  refine ⟨hdef,?_⟩
  -- the walk stays among reachable blocks, none of which is the header or the back-edge block
  have hbe : ¬ Relation.ReflTransGen cfg.Edge 0 be := by
    intro hreach
    rcases Relation.ReflTransGen.cases_tail hreach with heq | ⟨i,hi',hedge⟩
    · omega
    · obtain ⟨b,x,hb,hx,hxbe⟩ := h.edge_target hedge
      by_cases hibe : i = be
      · subst hibe
        exact hdead.2 hi h.header (by
          obtain ⟨b',hb',-,hterm⟩ := h.backEdge
          exact hi'.tail (edge_of_target hb' (by simp [hterm, Terminator.targets]) h.header))
      · refine h.labelsDefined_iff.mp hdef i b hb hibe x hx ?_ hxbe
        rintro rfl
        exact hsplit (Option.some.inj (h.header.symm.trans hxbe))
  refine sameWalk_of_simulated {k | Relation.ReflTransGen cfg.Edge 0 k} (lab cfg base hi) ?_
    Relation.ReflTransGen.refl h.head_label
  intro bi hbi
  obtain ⟨b,hb⟩ : ∃ b, cfg.blocks[bi]? = some b := by
    rcases Relation.ReflTransGen.cases_tail hbi with heq | ⟨i,-,-,c,-,hc,-⟩
    · have := h.be_lt
      exact ⟨_,List.getElem?_eq_getElem (by omega)⟩
    · exact ⟨c,hc⟩
  refine .inl (h.straight_lowered hb ?_ ?_ ?_)
  · rintro rfl
    exact hbe hbi
  · rintro rfl
    exact hdead.2 bi h.header hbi
  · intro x hx j hj
    exact Relation.ReflTransGen.tail hbi (edge_of_target hb hx hj)

/-- Entering the scaffold runs the back-edge block's body first. -/
lemma trace_header (h : LoopEmission cfg li base hi be mi negated bs) (hsplit : hi ≠ be) (m n : ℕ) :
    spirvTrace bs m (lab cfg base hi hi) [] ≠ cfgTrace cfg (n+1) hi [] := by
  obtain ⟨code,hhead,hbody,-⟩ := h.scaffold
  have hhead' := find?_label_of_nodup h.nodup hhead
  have hbody' := find?_label_of_nodup h.nodup hbody
  obtain ⟨hb,hhb,-⟩ := blockIndexAt_eq_some h.header
  rw [cfgTrace_succ hhb, show lab cfg base hi hi = base+cfg.blocks.length by simp [lab]]
  dsimp only at hhead' hbody'
  match m with
  | 0 => simp [spirvTrace]
  | 1 => simp [spirvTrace, hhead']
  | m+2 => simp [spirvTrace, hhead', hbody', Ne.symm hsplit]

/-- A walk that reaches the header of a split loop goes wrong there. -/
lemma trace_ne_of_reach (h : LoopEmission cfg li base hi be mi negated bs) (hsplit : hi ≠ be)
    (hdef : LabelsDefined bs) {k : ℕ} (hreach : Relation.ReflTransGen cfg.Edge k hi)
    (hk : k ≠ be) :
    ∃ n, ∀ m, spirvTrace bs m (lab cfg base hi k) [] ≠ cfgTrace cfg (n+1) k [] := by
  induction hreach using Relation.ReflTransGen.head_induction_on with
  | refl => exact ⟨0,fun m => h.trace_header hsplit m 0⟩
  | @head i j hedge hreach ih =>
    by_cases hihi : i = hi
    · subst hihi
      exact ⟨0,fun m => h.trace_header hsplit m 0⟩
    obtain ⟨b,x,hb,hx,hxj⟩ := h.edge_target hedge
    have hjbe : j ≠ be := by
      rintro rfl
      refine h.labelsDefined_iff.mp hdef i b hb hk x hx ?_ hxj
      rintro rfl
      exact hsplit (Option.some.inj (h.header.symm.trans hxj))
    obtain ⟨n,hn⟩ := ih hjbe
    obtain ⟨b',code,term,hb',hlow,hfind⟩ := h.straight_lowered (S := Set.univ) hb hk hihi
      (fun _ _ _ _ => Set.mem_univ _)
    obtain rfl : b = b' := Option.some.inj (hb.symm.trans hb')
    have hnext : cfg.next b.terminator [] = .goto j [] := by
      obtain ⟨_,_,-,hterm⟩ := h.straight hb hk
      generalize b.terminator = t at hx hterm
      cases hterm with
      | ret => simp [Terminator.targets] at hx
      | header ht hcond =>
        rw [ht] at hx
        obtain rfl := List.mem_singleton.mp hx
        rcases targets_singleton ht hcond with rfl | rfl <;> simp [Cfg.next, Cfg.goto, hxj]
      | goto ht hcond _ _ =>
        rw [ht] at hx
        obtain rfl := List.mem_singleton.mp hx
        rcases targets_singleton ht hcond with rfl | rfl <;> simp [Cfg.next, Cfg.goto, hxj]
    refine ⟨n+1,fun m => ?_⟩
    rw [cfgTrace_succ hb, hnext]
    cases m with
    | zero => simp [spirvTrace]
    | succ m =>
      rw [hlow.trace_eq hfind, hnext]
      simpa [WalkNext.trace] using hn m

theorem dead_of_faithful (h : LoopEmission cfg li base hi be mi negated bs) (hsplit : hi ≠ be)
    (hdef : LabelsDefined bs) (hwalk : SameWalk cfg bs) : Dead cfg li := by
  refine ⟨(h.labelsDefined_iff_of_split hsplit).mp hdef,?_⟩
  intro hi' hhi' hreach
  obtain rfl : hi = hi' := Option.some.inj (h.header.symm.trans hhi')
  have hpos := h.pos
  have hle := h.le
  obtain ⟨n,hn⟩ := h.trace_ne_of_reach hsplit hdef hreach (by omega)
  obtain ⟨m,hm⟩ := (hwalk [] _).mp ⟨n+1,rfl⟩
  obtain ⟨b,hb,hlab⟩ := Option.map_eq_some_iff.mp h.head_label
  rw [hb, Option.elim_some, hlab] at hm
  exact hn m hm

end LoopEmission

/-- The loop of `cfg`, if it has one, is a single block or dead code. -/
def LoopFused (cfg : Cfg) : Prop :=
  ∀ bi li, cfg.loopOf bi = some li → li.header = li.backEdgeBlock ∨ LoopEmission.Dead cfg li

/-- For any emission of the bodies, the lowered control flow is faithful exactly when
the loop is fused. -/
theorem emitCfg_faithful (em : BodyEmitter σ β) (s : Stream) {cfg : Cfg}
    (hcfg : buildCfg s.insts = .ok cfg) {base : ℕ} {st st' : σ} {bs : List (SpirvBlock β)}
    (h : emitCfg em cfg base st = .ok (st',bs)) :
    LabelsDefined bs ∧ SameWalk cfg bs ↔ LoopFused cfg := by
  have hl := buildCfg_layout s.contiguous hcfg
  unfold emitCfg at h
  cases hfind : (List.range cfg.blocks.length).findSome? cfg.loopOf with
  | none =>
    rw [hfind] at h
    refine iff_of_true (emitEach_selection_faithful h) ?_
    intro bi li hli
    have := List.findSome?_eq_none_iff.mp hfind bi (List.mem_range.mpr (loopOf_lt hli))
    simp [hli] at this
  | some li =>
    rw [hfind] at h
    obtain ⟨bi,-,hli⟩ := List.exists_of_findSome?_eq_some hfind
    have hbounded : ∀ d ∈ live s.insts, d.offsetDwords < 2^32 :=
      fun d hd => s.bounded d (List.mem_of_mem_take hd)
    obtain ⟨hi,d,hback⟩ := exists_backEdge (live_contiguous s.contiguous) hbounded hl hli
    obtain ⟨negated,hem⟩ := emitLoopCfg_emission hback h
    have hfused : LoopFused cfg ↔ hi = bi ∨ LoopEmission.Dead cfg li := by
      have hheader : li.header = li.backEdgeBlock ↔ hi = bi := by
        constructor
        · intro heq
          exact Option.some.inj (hem.header.symm.trans (heq ▸ hem.backEdge_index))
        · rintro rfl
          exact hem.unique hem.header hem.backEdge_index
      rw [← hheader]
      refine ⟨fun hall => hall bi li hli,fun hone bj lj hlj => ?_⟩
      obtain rfl := hl.checked.unique bi bj li lj hli hlj
      rw [hli] at hlj
      cases hlj
      exact hone
    rw [hfused]
    by_cases hsplit : hi = bi
    · exact iff_of_true (hem.faithful_of_fused hsplit) (.inl hsplit)
    · constructor
      · rintro ⟨hdef,hwalk⟩
        exact .inr (hem.dead_of_faithful hsplit hdef hwalk)
      · rintro (heq | hdead)
        · exact absurd heq hsplit
        · exact hem.faithful_of_dead hsplit hdead

end Unemups4.Gcn
