import Unemups4.LaneStep
import Unemups4.LoopShape

/-! Blocks as the interpreter visits them, seen from a lane: which instructions a body
runs, how unconditional flow reaches the merge of a branch and the end of a loop body,
where VCC is live, and what one body does to a lane inside or outside EXEC. -/
namespace Unemups4.Gcn
open Fallible

lemma live_getElem? {insts : List Decoded} {i : ℕ} (hi : i < (live insts).length) :
    (live insts)[i]? = insts[i]? := by
  unfold live at hi ⊢
  rw [List.getElem?_take_of_lt]
  rw [List.length_take] at hi
  omega

/-- `s_endpgm` can only be the last live instruction. -/
lemma live_endpgm {insts : List Decoded} {i : ℕ} {d : Decoded} (hd : (live insts)[i]? = some d)
    (hend : isEndpgm d = true) : i+1 = (live insts).length := by
  have hi := (List.getElem?_eq_some_iff.mp hd).1
  rw [live_getElem? hi] at hd
  obtain ⟨hlt,hget⟩ := List.getElem?_eq_some_iff.mp hd
  unfold live at hi ⊢
  cases hfind : insts.findIdx? isEndpgm with
  | none =>
    have := List.findIdx?_eq_none_iff.mp hfind d (List.mem_of_getElem? hd)
    simp [hend] at this
  | some k =>
    obtain ⟨hk,-,hfirst⟩ := List.findIdx?_eq_some_iff_getElem.mp hfind
    simp only [hfind, Option.map_some, Option.getD_some, List.length_take] at hi ⊢
    have hki : ¬ i < k := by
      intro hik
      have := hfirst i hik
      rw [hget] at this
      exact this hend
    omega

/-- The body of a block is a run of live instructions that ends with its terminator. -/
lemma buildCfg_body {insts : List Decoded} {cfg : Cfg} (h : buildCfg insts = .ok cfg) {k : ℕ}
    {b : BasicBlock} (hb : cfg.blocks[k]? = some b) :
    ∃ lo hi last next, b.insts = List.range' lo (hi-lo) ∧ lo < hi ∧
      (live insts)[hi-1]? = some last ∧
      blockTerminator (live insts) (hi-1) last next = .ok b.terminator := by
  obtain ⟨ls,hls,h⟩ := bind_eq_ok.mp h
  obtain ⟨bs,hbs,h⟩ := bind_eq_ok.mp h
  obtain ⟨u,hval,hcfg⟩ := bind_eq_ok.mp h
  cases hcfg
  obtain ⟨leader,-,hcut⟩ := cutBlocks_get hbs hb
  obtain ⟨lo,hi,last,-,-,hlt,hlast,-,hinsts,hterm⟩ := cutBlock_ok hcut
  exact ⟨lo,hi,last,_,hinsts,hlt,hlast,hterm⟩

lemma body_live {insts : List Decoded} {cfg : Cfg} (h : buildCfg insts = .ok cfg) {k i : ℕ}
    {b : BasicBlock} {d : Decoded} (hb : cfg.blocks[k]? = some b) (hi : i ∈ b.insts)
    (hd : insts[i]? = some d) : (live insts)[i]? = some d := by
  obtain ⟨lo,hi',last,next,hinsts,hlt,hlast,-⟩ := buildCfg_body h hb
  rw [hinsts, List.mem_range'_1] at hi
  have hlen := (List.getElem?_eq_some_iff.mp hlast).1
  rw [live_getElem? (by omega)]
  exact hd

/-- A block with `s_endpgm` in it returns. -/
lemma body_endpgm {insts : List Decoded} {cfg : Cfg} (h : buildCfg insts = .ok cfg) {k i : ℕ}
    {b : BasicBlock} {d : Decoded} (hb : cfg.blocks[k]? = some b) (hi : i ∈ b.insts)
    (hd : insts[i]? = some d) (hend : isEndpgm d = true) : b.terminator = .ret := by
  have hlive := body_live h hb hi hd
  have hlen := live_endpgm hlive hend
  obtain ⟨lo,hi',last,next,hinsts,hlt,hlast,hterm⟩ := buildCfg_body h hb
  rw [hinsts, List.mem_range'_1] at hi
  have hlen' := (List.getElem?_eq_some_iff.mp hlast).1
  obtain rfl : hi'-1 = i := by omega
  rw [hlive] at hlast
  cases hlast
  have hdone : classifyTerminator d = some .done := by
    unfold isEndpgm at hend
    split at hend
    · rename_i hinst
      simp [classifyTerminator, hinst]
    · cases hend
  simp only [blockTerminator, hdone] at hterm
  exact (Except.ok.inj hterm).symm

lemma runBody_ended {E : Env} {insts : List Decoded} {l : List ℕ} {w w' : Wave}
    (h : runBody E insts l w = .ok (true,w')) :
    ∃ i ∈ l, ∃ d, insts[i]? = some d ∧ isEndpgm d = true := by
  induction l generalizing w with
  | nil => cases h
  | cons i l ih =>
    unfold runBody at h
    cases hd : insts[i]? with
    | none => simp [hd] at h
    | some d =>
      simp only [hd] at h
      split_ifs at h with hend hskip
      · exact ⟨i,by simp,d,hd,hend⟩
      · obtain ⟨j,hj,hex⟩ := ih h
        exact ⟨j,List.mem_cons_of_mem _ hj,hex⟩
      · obtain ⟨w1,-,h⟩ := bind_eq_ok.mp h
        obtain ⟨j,hj,hex⟩ := ih h
        exact ⟨j,List.mem_cons_of_mem _ hj,hex⟩

lemma blockAt_eq_some {cfg : Cfg} {x bi : ℕ} {b : BasicBlock} :
    cfg.blockAt x = some (bi,b) ↔ cfg.blockIndexAt x = some bi ∧ cfg.blocks[bi]? = some b := by
  unfold Cfg.blockAt
  cases hbi : cfg.blockIndexAt x with
  | none => simp
  | some k =>
    cases hb : cfg.blocks[k]? with
    | none =>
      simp only [Option.bind_eq_bind, Option.bind_some, Option.some.injEq]
      aesop
    | some c =>
      simp only [Option.bind_eq_bind, Option.bind_some, Option.pure_def, Option.some.injEq]
      aesop

/-- Control leaves the block at `x` unconditionally for `y`. -/
def Cfg.Flow (cfg : Cfg) (x y : ℕ) : Prop :=
  ∃ bi b, cfg.blockAt x = some (bi,b) ∧
    (b.terminator = .fallthrough y ∨ b.terminator = .branch y)

abbrev Cfg.FlowsTo (cfg : Cfg) : ℕ → ℕ → Prop := Relation.ReflTransGen cfg.Flow

/-- The block at `x` is not the entry block. -/
def Cfg.Inner (cfg : Cfg) (x : ℕ) : Prop := cfg.blockIndexAt x ≠ some 0

section Shape

variable {s : Stream} {cfg : Cfg}

lemma target_inner (hcfg : buildCfg s.insts = .ok cfg) {bi t : ℕ} {b : BasicBlock}
    (hb : cfg.blocks[bi]? = some b) (ht : t ∈ b.terminator.targets) : cfg.Inner t := by
  have hl := buildCfg_layout s.contiguous hcfg
  have hbound : ∀ d ∈ live s.insts, d.offsetDwords < 2^32 := fun d hd =>
    s.bounded d (List.mem_of_mem_take hd)
  intro h0
  obtain ⟨c,hc,rfl⟩ := blockIndexAt_eq_some h0
  obtain ⟨i,d,hends⟩ := hl.endsAt bi b hb
  have hpos : ¬ b.start < c.start := by
    rw [hl.start_lt_iff hb hc]
    omega
  rcases hends.edge_cases hbound hl ⟨b,c,hb,hc,ht⟩ with h | ⟨c',t,hc',-,h⟩
  · omega
  · obtain rfl : c = c' := Option.some.inj (hc.symm.trans hc')
    rcases h with ⟨-,hterm⟩ | ⟨op,cond,fall,-,hterm⟩
    · exact hpos (hl.checked.forward b (List.mem_of_getElem? hb) _ hterm)
    · have hloop := loopOf_of_cond hb hterm (by omega)
      exact hl.checked.header bi _ hloop h0

lemma flow_inner (hcfg : buildCfg s.insts = .ok cfg) {x y : ℕ} (hxy : cfg.Flow x y) :
    cfg.Inner y := by
  obtain ⟨bi,b,hb,hterm⟩ := hxy
  refine target_inner hcfg (blockAt_eq_some.mp hb).2 ?_
  rcases hterm with hterm | hterm <;> simp [hterm, Terminator.targets]

lemma flowsTo_inner (hcfg : buildCfg s.insts = .ok cfg) {x y : ℕ} (hx : cfg.Inner x)
    (hxy : cfg.FlowsTo x y) : cfg.Inner y := by
  induction hxy with
  | refl => exact hx
  | tail _ hyz _ => exact flow_inner hcfg hyz

lemma reachFrom_mem {cfg : Cfg} {fuel b x : ℕ} {seen : List ℕ} (hx : x ∈ cfg.reachFrom fuel b seen) :
    x ∈ seen ∨ Relation.ReflTransGen (fun i j => cfg.uncondSucc i = some j) b x := by
  induction fuel generalizing b seen with
  | zero => exact .inl hx
  | succ fuel ih =>
    unfold Cfg.reachFrom at hx
    cases hsucc : cfg.uncondSucc b with
    | none =>
      simp only [hsucc] at hx
      exact .inl hx
    | some next =>
      simp only [hsucc] at hx
      split_ifs at hx
      · exact .inl hx
      · rcases ih hx with hx | hx
        · rcases List.mem_append.mp hx with hx | hx
          · exact .inl hx
          · obtain rfl := List.mem_singleton.mp hx
            exact .inr (.single hsucc)
        · exact .inr (hx.head hsucc)

lemma reach_mem {cfg : Cfg} {b x : ℕ} (hx : x ∈ cfg.reach b) :
    Relation.ReflTransGen (fun i j => cfg.uncondSucc i = some j) b x := by
  rcases reachFrom_mem hx with hx | hx
  · obtain rfl := List.mem_singleton.mp hx
    exact .refl
  · exact hx

/-- A chain of unconditional successors between blocks, as offsets. -/
lemma flowsTo_of_succ {cfg : Cfg} (hl : Layout (live s.insts) cfg) {i j : ℕ}
    (h : Relation.ReflTransGen (fun i j => cfg.uncondSucc i = some j) i j) {b c : BasicBlock}
    (hb : cfg.blocks[i]? = some b) (hc : cfg.blocks[j]? = some c) :
    cfg.FlowsTo b.start c.start := by
  induction h generalizing c with
  | refl =>
    rw [hb] at hc
    cases hc
    exact .refl
  | @tail j k _ hjk ih =>
    unfold Cfg.uncondSucc at hjk
    split at hjk
    · rename_i start insts target hj
      obtain ⟨c',hc',rfl⟩ := blockIndexAt_eq_some hjk
      obtain rfl : c = c' := Option.some.inj (hc.symm.trans hc')
      exact (ih hj).tail ⟨j,_,blockAt_eq_some.mpr ⟨hl.blockIndexAt hj,hj⟩,.inl rfl⟩
    · rename_i start insts target hj
      obtain ⟨c',hc',rfl⟩ := blockIndexAt_eq_some hjk
      obtain rfl : c = c' := Option.some.inj (hc.symm.trans hc')
      exact (ih hj).tail ⟨j,_,blockAt_eq_some.mpr ⟨hl.blockIndexAt hj,hj⟩,.inr rfl⟩
    · cases hjk

/-- Both arms of a branch flow to its merge. -/
lemma mergeTarget_flowsTo (hcfg : buildCfg s.insts = .ok cfg) {bi m : ℕ} {b : BasicBlock}
    {c : BranchCond} {taken fall : ℕ} (hb : cfg.blocks[bi]? = some b)
    (hterm : b.terminator = .cond c taken fall) (hm : cfg.mergeTarget bi = some m) :
    cfg.FlowsTo taken m ∧ cfg.FlowsTo fall m := by
  have hl := buildCfg_layout s.contiguous hcfg
  obtain ⟨start,insts,term⟩ := b
  cases hterm
  simp only [Cfg.mergeTarget, hb, Option.bind_eq_bind, Option.bind_eq_some_iff] at hm
  obtain ⟨ti,hti,fi,hfi,hmin⟩ := hm
  obtain ⟨x,hx,hxm⟩ := List.mem_filterMap.mp (List.min?_mem hmin)
  obtain ⟨hxt,hxf⟩ := List.mem_filter.mp hx
  obtain ⟨d,hd,rfl⟩ := Option.map_eq_some_iff.mp hxm
  obtain ⟨t,ht,rfl⟩ := blockIndexAt_eq_some hti
  obtain ⟨f,hf,rfl⟩ := blockIndexAt_eq_some hfi
  exact ⟨flowsTo_of_succ hl (reach_mem hxt) ht hd,
    flowsTo_of_succ hl (reach_mem (by simpa using hxf)) hf hd⟩

/-- A block that flows on does not end the wave. -/
lemma runBlockBody_flow (hcfg : buildCfg s.insts = .ok cfg) {E : Env} {bi : ℕ} {b : BasicBlock}
    (hb : cfg.blocks[bi]? = some b) (hterm : b.terminator ≠ .ret) {ended : Bool} {w w' : Wave}
    (h : runBlockBody E s.insts b w = .ok (ended,w')) : ended = false := by
  cases ended with
  | false => rfl
  | true =>
    obtain ⟨i,hi,d,hd,hend⟩ := runBody_ended h
    exact (hterm (body_endpgm hcfg hb hi hd hend)).elim

end Shape

end Unemups4.Gcn
