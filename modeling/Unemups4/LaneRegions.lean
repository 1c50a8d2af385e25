import Unemups4.LaneBlocks

/-! A lane in the arms of a branch and in the iterations of a loop. It takes the same path in
any two waves that agree about it; what may differ is how often the arms and the loop bodies
it is masked off in run, and such a run clears its bit of VCC. -/
namespace Unemups4.Gcn
open Fallible

/-- Of the instructions at these indices, one reads VCC before any of them writes it. -/
def exposesVcc (insts : List Decoded) : List ℕ → Bool
  | [] => false
  | i :: l =>
      match insts[i]? with
      | none => false
      | some d =>
          if isEndpgm d then false
          else if isIdle d || isCfgBranch d then exposesVcc insts l
          else d.inst.readsVcc || (!d.inst.writesVcc && exposesVcc insts l)

/-- One of the instructions at these indices writes VCC. -/
def settlesVcc (insts : List Decoded) : List ℕ → Bool
  | [] => false
  | i :: l =>
      match insts[i]? with
      | none => false
      | some d =>
          if isEndpgm d then false
          else if isIdle d || isCfgBranch d then settlesVcc insts l
          else d.inst.writesVcc || settlesVcc insts l

def BranchCond.testsVcc : BranchCond → Bool
  | .vccz | .vccnz => true
  | .execz | .execnz => false

def Terminator.testsVcc : Terminator → Bool
  | .cond c _ _ => c.testsVcc
  | _ => false

section Live

variable (insts : List Decoded) (cfg : Cfg)

/-- On some way from the block at `x`, VCC is read before it is written. -/
inductive VccLive : ℕ → Prop
  | body {x bi : ℕ} {b : BasicBlock} (at_ : cfg.blockAt x = some (bi,b))
      (exposed : exposesVcc insts b.insts = true) : VccLive x
  | test {x bi : ℕ} {b : BasicBlock} (at_ : cfg.blockAt x = some (bi,b))
      (unwritten : settlesVcc insts b.insts = false) (tests : b.terminator.testsVcc = true) :
      VccLive x
  | next {x y bi : ℕ} {b : BasicBlock} (at_ : cfg.blockAt x = some (bi,b))
      (unwritten : settlesVcc insts b.insts = false) (target : y ∈ b.terminator.targets)
      (live : VccLive y) : VccLive x

/-- The flow from `x` writes VCC before it reaches `stop`. -/
inductive WritesBefore (stop : ℕ) : ℕ → Prop
  | here {x bi : ℕ} {b : BasicBlock} (away : x ≠ stop) (at_ : cfg.blockAt x = some (bi,b))
      (written : settlesVcc insts b.insts = true) : WritesBefore stop x
  | later {x y : ℕ} (away : x ≠ stop) (flow : cfg.Flow x y) (writes : WritesBefore stop y) :
      WritesBefore stop x

/-- One iteration of the loop writes VCC. -/
def LoopWrites (li : LoopInfo) : Prop :=
  WritesBefore insts cfg li.backEdgeBlock li.header ∨
    ∃ bi b, cfg.blockAt li.backEdgeBlock = some (bi,b) ∧ settlesVcc insts b.insts = true

/-- The two waves hold the same bit of VCC for the lane, unless nothing from `x` on reads it. -/
def VccAgrees (L : Lane) (x : ℕ) (w v : Wave) : Prop :=
  w.vccBit L = v.vccBit L ∨ ¬VccLive insts cfg x

/-- Scalar instructions stand in the entry block only, the masks are read as conditions only,
VCC is not read where a region the lane skips may have cleared its bit, and an iteration of a
loop reaches the end of the loop. -/
structure LaneShader : Prop where
  laneLocal : ∀ d ∈ live insts, LaneLocal d.inst
  scalars : ∀ bi b, cfg.blocks[bi]? = some b → bi ≠ 0 → ∀ i ∈ b.insts, ∀ d, insts[i]? = some d →
    d.inst.isScalar = false
  arms : ∀ bi b c taken fall m, cfg.blocks[bi]? = some b → b.terminator = .cond c taken fall →
    cfg.loopOf bi = none → cfg.mergeTarget bi = some m →
    (WritesBefore insts cfg m taken → ¬VccLive insts cfg fall) ∧
      (WritesBefore insts cfg m fall → ¬VccLive insts cfg m)
  loops : ∀ bi li, cfg.loopOf bi = some li → LoopWrites insts cfg li →
    li.cond = .vccnz ∨ ¬VccLive insts cfg li.merge
  closes : ∀ bi li, cfg.loopOf bi = some li → cfg.FlowsTo li.header li.backEdgeBlock

end Live

section Body

variable {E : Env} {insts : List Decoded} {L : Lane} {w w' v v' : Wave} {l : List ℕ}

/-- The instructions at these indices are vector instructions that read no mask. -/
def LaneBody (insts : List Decoded) (l : List ℕ) : Prop :=
  ∀ i ∈ l, ∀ d, insts[i]? = some d → LaneLocal d.inst ∧ d.inst.isScalar = false

/-- A body leaves a masked-off lane alone, apart from its bit of VCC. -/
lemma body_dead (hl : LaneBody insts l) (hdead : w.laneLive L = false) {ended : Bool}
    (hw : runBody E insts l w = .ok (ended,w')) :
    SameLane L w w' ∧
      (w'.vccBit L = w.vccBit L ∨ settlesVcc insts l = true ∧ w'.vccBit L = false) := by
  induction l generalizing w with
  | nil =>
    cases hw
    exact ⟨.refl L _,.inl rfl⟩
  | cons i l ih =>
    have hrest : LaneBody insts l := fun j hj => hl j (List.mem_cons_of_mem _ hj)
    unfold runBody at hw
    unfold settlesVcc
    cases hd : insts[i]? with
    | none => simp [hd] at hw
    | some d =>
      simp only [hd] at hw ⊢
      split_ifs at hw with hend hidle
      · cases hw
        exact ⟨.refl L _,.inl rfl⟩
      · simp only [hend, hidle, if_true, Bool.false_eq_true, if_false]
        exact ih hrest hdead hw
      · obtain ⟨w₁,hw₁,hw⟩ := bind_eq_ok.mp hw
        obtain ⟨hlocal,hvector⟩ := hl i List.mem_cons_self d hd
        obtain ⟨hsame,hbit⟩ := execOne_dead hvector hlocal hdead hw₁
        obtain ⟨hsame',hbit'⟩ := ih hrest (hsame.live ▸ hdead) hw
        refine ⟨hsame.trans hsame',?_⟩
        simp only [hend, hidle, Bool.false_eq_true, if_false, Bool.or_eq_true]
        rcases hbit' with heq | ⟨hwrites,hoff⟩
        · rw [heq]
          exact hbit.imp_right fun h => ⟨.inl h.1,h.2⟩
        · exact .inr ⟨.inr hwrites,hoff⟩

lemma body_exec (hl : LaneBody insts l) {ended : Bool} (hw : runBody E insts l w = .ok (ended,w')) :
    w'.exec = w.exec := by
  induction l generalizing w with
  | nil =>
    cases hw
    rfl
  | cons i l ih =>
    have hrest : LaneBody insts l := fun j hj => hl j (List.mem_cons_of_mem _ hj)
    unfold runBody at hw
    cases hd : insts[i]? with
    | none => simp [hd] at hw
    | some d =>
      simp only [hd] at hw
      split_ifs at hw with hend hidle
      · cases hw
        rfl
      · exact ih hrest hw
      · obtain ⟨w₁,hw₁,hw⟩ := bind_eq_ok.mp hw
        obtain ⟨hlocal,hvector⟩ := hl i List.mem_cons_self d hd
        exact (ih hrest hw).trans (execOne_exec hvector hlocal hw₁)

/-- Two bodies move equal views alike. A lane that is live needs its bit of VCC for what reads
it, and a write of VCC makes the bits equal. -/
lemma body_twin (hl : LaneBody insts l) (hwv : SameLane L w v)
    (hbits : w.vccBit L = v.vccBit L ∨ exposesVcc insts l = false) {ended ended' : Bool}
    (hw : runBody E insts l w = .ok (ended,w')) (hv : runBody E insts l v = .ok (ended',v')) :
    ended' = ended ∧ SameLane L w' v' ∧
      (settlesVcc insts l = true ∨ w.vccBit L = v.vccBit L → w'.vccBit L = v'.vccBit L) := by
  induction l generalizing w v with
  | nil =>
    cases hw
    cases hv
    exact ⟨rfl,hwv,fun h => h.resolve_left Bool.false_ne_true⟩
  | cons i l ih =>
    have hrest : LaneBody insts l := fun j hj => hl j (List.mem_cons_of_mem _ hj)
    unfold runBody at hw hv
    unfold exposesVcc at hbits
    unfold settlesVcc
    cases hd : insts[i]? with
    | none => simp [hd] at hw
    | some d =>
      simp only [hd] at hw hv hbits ⊢
      by_cases hend : isEndpgm d = true
      · simp only [hend, if_true] at hw hv ⊢
        cases hw
        cases hv
        exact ⟨rfl,hwv,fun h => h.resolve_left Bool.false_ne_true⟩
      by_cases hidle : (isIdle d || isCfgBranch d) = true
      · simp only [hend, hidle, if_true, Bool.false_eq_true, if_false] at hw hv hbits ⊢
        exact ih hrest hwv hbits hw hv
      simp only [hend, hidle, Bool.false_eq_true, if_false] at hw hv hbits ⊢
      obtain ⟨w₁,hw₁,hw⟩ := bind_eq_ok.mp hw
      obtain ⟨v₁,hv₁,hv⟩ := bind_eq_ok.mp hv
      obtain ⟨hlocal,hvector⟩ := hl i List.mem_cons_self d hd
      have hreads : d.inst.readsVcc = true → w.vccBit L = v.vccBit L := by
        intro hread
        refine hbits.resolve_right ?_
        simp [hread]
      obtain ⟨hsame,hbit⟩ := execOne_twin hvector hlocal hwv hreads hw₁ hv₁
      have hbits₁ : w₁.vccBit L = v₁.vccBit L ∨ exposesVcc insts l = false := by
        cases hwrites : d.inst.writesVcc with
        | true => exact .inl (hbit (.inl hwrites))
        | false =>
          refine hbits.imp (fun heq => hbit (.inr heq)) fun hexposed => ?_
          simpa [hwrites] using (Bool.or_eq_false_iff.mp hexposed).2
      obtain ⟨hended,hsame',hbit'⟩ := ih hrest hsame hbits₁ hw hv
      refine ⟨hended,hsame',fun h => hbit' ?_⟩
      rcases h with hwrites | heq
      · rcases (Bool.or_eq_true _ _).mp hwrites with hwrites | hwrites
        · exact .inr (hbit (.inl hwrites))
        · exact .inl hwrites
      · exact .inr (hbit (.inr heq))

/-- The entry block may hold scalar instructions, and finds the same bit of VCC. -/
lemma body_entry (hl : ∀ i ∈ l, ∀ d, insts[i]? = some d → LaneLocal d.inst)
    (hwv : SameView L w v) {ended ended' : Bool} (hw : runBody E insts l w = .ok (ended,w'))
    (hv : runBody E insts l v = .ok (ended',v')) : ended' = ended ∧ SameView L w' v' := by
  induction l generalizing w v with
  | nil =>
    cases hw
    cases hv
    exact ⟨rfl,hwv⟩
  | cons i l ih =>
    have hrest : ∀ j ∈ l, ∀ d, insts[j]? = some d → LaneLocal d.inst := fun j hj =>
      hl j (List.mem_cons_of_mem _ hj)
    unfold runBody at hw hv
    cases hd : insts[i]? with
    | none => simp [hd] at hw
    | some d =>
      simp only [hd] at hw hv
      by_cases hend : isEndpgm d = true
      · simp only [hend, if_true] at hw hv
        cases hw
        cases hv
        exact ⟨rfl,hwv⟩
      by_cases hidle : (isIdle d || isCfgBranch d) = true
      · simp only [hend, hidle, if_true, Bool.false_eq_true, if_false] at hw hv
        exact ih hrest hwv hw hv
      simp only [hend, hidle, Bool.false_eq_true, if_false] at hw hv
      obtain ⟨w₁,hw₁,hw⟩ := bind_eq_ok.mp hw
      obtain ⟨v₁,hv₁,hv⟩ := bind_eq_ok.mp hv
      have hlocal := hl i List.mem_cons_self d hd
      have hview : SameView L w₁ v₁ := by
        cases hscalar : d.inst.isScalar with
        | true => exact execOne_scalar hscalar hlocal hwv hw₁ hv₁
        | false =>
          obtain ⟨hsame,hbit⟩ :=
            execOne_twin hscalar hlocal hwv.toSameLane (fun _ => hwv.vcc) hw₁ hv₁
          exact ⟨hsame,hbit (.inr hwv.vcc)⟩
      exact ih hrest hview hw hv

end Body

section Region

variable {E : Env} {s : Stream} {cfg : Cfg} {L : Lane} {w w' v v' : Wave}

lemma flow_of_blockAt {x y bi : ℕ} {b : BasicBlock} (hb : cfg.blockAt x = some (bi,b))
    (hxy : cfg.Flow x y) : b.terminator = .fallthrough y ∨ b.terminator = .branch y := by
  obtain ⟨bi',b',hb',hterm⟩ := hxy
  rw [hb] at hb'
  cases hb'
  exact hterm

/-- Away from `stop`, the flow towards it takes the block's only way out. -/
lemma flowsTo_cases {x stop bi : ℕ} {b : BasicBlock} (hb : cfg.blockAt x = some (bi,b))
    (hflow : cfg.FlowsTo x stop) (hne : x ≠ stop) :
    ∃ y, (b.terminator = .fallthrough y ∨ b.terminator = .branch y) ∧ cfg.Flow x y ∧
      cfg.FlowsTo y stop := by
  rcases Relation.ReflTransGen.cases_head hflow with heq | ⟨y,hxy,hrest⟩
  · exact absurd heq hne
  · exact ⟨y,flow_of_blockAt hb hxy,hxy,hrest⟩

lemma LaneShader.body (h : LaneShader s.insts cfg) (hcfg : buildCfg s.insts = .ok cfg) {x bi : ℕ}
    {b : BasicBlock} (hb : cfg.blockAt x = some (bi,b)) (hx : cfg.Inner x) :
    LaneBody s.insts b.insts := by
  obtain ⟨hbi,hb⟩ := blockAt_eq_some.mp hb
  intro i hi d hd
  have hne : bi ≠ 0 := by
    rintro rfl
    exact hx hbi
  exact ⟨h.laneLocal d (List.mem_of_getElem? (body_live hcfg hb hi hd)),h.scalars bi b hb hne i hi d hd⟩

/-- What a block needs of VCC, it hands on to where it goes. -/
lemma block_twin (h : LaneShader s.insts cfg) (hcfg : buildCfg s.insts = .ok cfg) {x bi : ℕ}
    {b : BasicBlock} (hb : cfg.blockAt x = some (bi,b)) (hx : cfg.Inner x) (hwv : SameLane L w v)
    (hvcc : VccAgrees s.insts cfg L x w v) {ended ended' : Bool}
    (hw : runBlockBody E s.insts b w = .ok (ended,w'))
    (hv : runBlockBody E s.insts b v = .ok (ended',v')) :
    ended' = ended ∧ SameLane L w' v' ∧
      (b.terminator.testsVcc = true → w'.vccBit L = v'.vccBit L) ∧
      ∀ y ∈ b.terminator.targets, VccAgrees s.insts cfg L y w' v' := by
  have hbits : w.vccBit L = v.vccBit L ∨ exposesVcc s.insts b.insts = false := by
    refine hvcc.imp_right fun hdead => ?_
    rw [← Bool.not_eq_true]
    exact fun hexposed => hdead (.body hb hexposed)
  obtain ⟨hended,hsame,hbit⟩ := body_twin (h.body hcfg hb hx) hwv hbits hw hv
  by_cases hagree : settlesVcc s.insts b.insts = true ∨ w.vccBit L = v.vccBit L
  · exact ⟨hended,hsame,fun _ => hbit hagree,fun _ _ => .inl (hbit hagree)⟩
  · rw [not_or, Bool.not_eq_true] at hagree
    have hdead : ¬VccLive s.insts cfg x := hvcc.resolve_left hagree.2
    refine ⟨hended,hsame,fun htests => absurd (.test hb hagree.1 htests) hdead,fun y hy => .inr ?_⟩
    exact fun hlive => hdead (.next hb hagree.1 hy hlive)

/-- A region that reaches its end does nothing to a masked-off lane but clear its bit of VCC. -/
lemma region_dead (h : LaneShader s.insts cfg) (hcfg : buildCfg s.insts = .ok cfg)
    {steps cur stop : ℕ} (hflow : cfg.FlowsTo cur stop) (hcur : cfg.Inner cur)
    (hdead : w.laneLive L = false) {ended : Bool}
    (hw : runRegion E s.insts cfg stop steps cur w = .ok (ended,w')) :
    ended = false ∧ SameLane L w w' ∧ (w'.vccBit L = w.vccBit L ∨
      WritesBefore s.insts cfg stop cur ∧ w'.vccBit L = false) := by
  induction steps generalizing cur w with
  | zero =>
    unfold runRegion at hw
    split_ifs at hw with hstop
    cases hw
    exact ⟨rfl,.refl L _,.inl rfl⟩
  | succ steps ih =>
    unfold runRegion at hw
    split_ifs at hw with hstop
    · cases hw
      exact ⟨rfl,.refl L _,.inl rfl⟩
    cases hb : cfg.blockAt cur with
    | none => simp [hb] at hw
    | some p =>
      obtain ⟨bi,b⟩ := p
      simp only [hb] at hw
      obtain ⟨⟨ended₁,w₁⟩,hw₁,hw⟩ := bind_eq_ok.mp hw
      obtain ⟨y,hterm,hxy,hrest⟩ := flowsTo_cases hb hflow hstop
      have hret : b.terminator ≠ .ret := by rcases hterm with ht | ht <;> simp [ht]
      obtain rfl : ended₁ = false :=
        runBlockBody_flow hcfg (blockAt_eq_some.mp hb).2 hret hw₁
      have hw : runRegion E s.insts cfg stop steps y w₁ = .ok (ended,w') := by
        rcases hterm with ht | ht <;> simpa [ht] using hw
      obtain ⟨hsame,hbit⟩ := body_dead (h.body hcfg hb hcur) hdead hw₁
      obtain ⟨hended,hsame',hbit'⟩ := ih hrest (flow_inner hcfg hxy) (hsame.live ▸ hdead) hw
      refine ⟨hended,hsame.trans hsame',?_⟩
      rcases hbit' with heq | ⟨hwrites,hoff⟩
      · rw [heq]
        exact hbit.imp_right fun hwrites => ⟨.here hstop hb hwrites.1,hwrites.2⟩
      · exact .inr ⟨.later hstop hxy hwrites,hoff⟩

lemma region_twin (h : LaneShader s.insts cfg) (hcfg : buildCfg s.insts = .ok cfg)
    {steps cur stop : ℕ} (hflow : cfg.FlowsTo cur stop) (hcur : cfg.Inner cur)
    (hwv : SameLane L w v) (hvcc : VccAgrees s.insts cfg L cur w v) {ended ended' : Bool}
    (hw : runRegion E s.insts cfg stop steps cur w = .ok (ended,w'))
    (hv : runRegion E s.insts cfg stop steps cur v = .ok (ended',v')) :
    ended = false ∧ ended' = false ∧ SameLane L w' v' ∧ VccAgrees s.insts cfg L stop w' v' := by
  induction steps generalizing cur w v with
  | zero =>
    unfold runRegion at hw hv
    split_ifs at hw hv with hstop
    cases hw
    cases hv
    exact ⟨rfl,rfl,hwv,hstop ▸ hvcc⟩
  | succ steps ih =>
    unfold runRegion at hw hv
    split_ifs at hw hv with hstop
    · cases hw
      cases hv
      exact ⟨rfl,rfl,hwv,hstop ▸ hvcc⟩
    cases hb : cfg.blockAt cur with
    | none => simp [hb] at hw
    | some p =>
      obtain ⟨bi,b⟩ := p
      simp only [hb] at hw hv
      obtain ⟨⟨ended₁,w₁⟩,hw₁,hw⟩ := bind_eq_ok.mp hw
      obtain ⟨⟨ended₂,v₁⟩,hv₁,hv⟩ := bind_eq_ok.mp hv
      obtain ⟨y,hterm,hxy,hrest⟩ := flowsTo_cases hb hflow hstop
      have hret : b.terminator ≠ .ret := by rcases hterm with ht | ht <;> simp [ht]
      have hy : y ∈ b.terminator.targets := by
        rcases hterm with ht | ht <;> simp [ht, Terminator.targets]
      obtain rfl : ended₁ = false :=
        runBlockBody_flow hcfg (blockAt_eq_some.mp hb).2 hret hw₁
      obtain ⟨rfl,hsame,-,hnext⟩ := block_twin h hcfg hb hcur hwv hvcc hw₁ hv₁
      have hw : runRegion E s.insts cfg stop steps y w₁ = .ok (ended,w') := by
        rcases hterm with ht | ht <;> simpa [ht] using hw
      have hv : runRegion E s.insts cfg stop steps y v₁ = .ok (ended',v') := by
        rcases hterm with ht | ht <;> simpa [ht] using hv
      exact ih hrest (flow_inner hcfg hxy) hsame (hnext y hy) hw hv

/-- One iteration of a loop, for a masked-off lane. -/
lemma loopBody_dead (h : LaneShader s.insts cfg) (hcfg : buildCfg s.insts = .ok cfg)
    {li : LoopInfo} {bb : ℕ} {back : BasicBlock} (hback : cfg.blockAt li.backEdgeBlock = some (bb,back))
    (hret : back.terminator ≠ .ret) {steps cur : ℕ} (hflow : cfg.FlowsTo cur li.backEdgeBlock)
    (hcur : cfg.Inner cur) (hdead : w.laneLive L = false) {ended : Bool}
    (hw : runLoopBody E s.insts cfg li steps cur w = .ok (ended,w')) :
    ended = false ∧ SameLane L w w' ∧ (w'.vccBit L = w.vccBit L ∨
      (WritesBefore s.insts cfg li.backEdgeBlock cur ∨ settlesVcc s.insts back.insts = true) ∧
        w'.vccBit L = false) := by
  induction steps generalizing cur w with
  | zero =>
    unfold runLoopBody at hw
    cases hw
  | succ steps ih =>
    unfold runLoopBody at hw
    cases hb : cfg.blockAt cur with
    | none => simp [hb] at hw
    | some p =>
      obtain ⟨bi,b⟩ := p
      simp only [hb] at hw
      obtain ⟨⟨ended₁,w₁⟩,hw₁,hw⟩ := bind_eq_ok.mp hw
      obtain ⟨hsame,hbit⟩ := body_dead (h.body hcfg hb hcur) hdead hw₁
      by_cases hstop : cur = li.backEdgeBlock
      · subst hstop
        rw [hb] at hback
        cases hback
        obtain rfl : ended₁ = false := runBlockBody_flow hcfg (blockAt_eq_some.mp hb).2 hret hw₁
        simp only [Bool.false_eq_true, if_false, if_true] at hw
        cases hw
        exact ⟨rfl,hsame,hbit.imp_right fun hwrites => ⟨.inr hwrites.1,hwrites.2⟩⟩
      obtain ⟨y,hterm,hxy,hrest⟩ := flowsTo_cases hb hflow hstop
      have hout : b.terminator ≠ .ret := by rcases hterm with ht | ht <;> simp [ht]
      obtain rfl : ended₁ = false := runBlockBody_flow hcfg (blockAt_eq_some.mp hb).2 hout hw₁
      have hw : runLoopBody E s.insts cfg li steps y w₁ = .ok (ended,w') := by
        rcases hterm with ht | ht <;> simpa [ht, hstop] using hw
      obtain ⟨hended,hsame',hbit'⟩ := ih hrest (flow_inner hcfg hxy) (hsame.live ▸ hdead) hw
      refine ⟨hended,hsame.trans hsame',?_⟩
      rcases hbit' with heq | ⟨hwrites,hoff⟩
      · rw [heq]
        exact hbit.imp_right fun hwrites => ⟨.inl (.here hstop hb hwrites.1),hwrites.2⟩
      · exact .inr ⟨hwrites.imp_left (.later hstop hxy),hoff⟩

lemma loopBody_exec (h : LaneShader s.insts cfg) (hcfg : buildCfg s.insts = .ok cfg)
    {li : LoopInfo} {steps cur : ℕ} (hflow : cfg.FlowsTo cur li.backEdgeBlock)
    (hcur : cfg.Inner cur) {ended : Bool}
    (hw : runLoopBody E s.insts cfg li steps cur w = .ok (ended,w')) : w'.exec = w.exec := by
  induction steps generalizing cur w with
  | zero =>
    unfold runLoopBody at hw
    cases hw
  | succ steps ih =>
    unfold runLoopBody at hw
    cases hb : cfg.blockAt cur with
    | none => simp [hb] at hw
    | some p =>
      obtain ⟨bi,b⟩ := p
      simp only [hb] at hw
      obtain ⟨⟨ended₁,w₁⟩,hw₁,hw⟩ := bind_eq_ok.mp hw
      have hexec := body_exec (h.body hcfg hb hcur) hw₁
      cases ended₁ with
      | true =>
        cases hw
        exact hexec
      | false =>
        by_cases hstop : cur = li.backEdgeBlock
        · simp only [hstop, Bool.false_eq_true, if_false, if_true] at hw
          cases hw
          exact hexec
        obtain ⟨y,hterm,hxy,hrest⟩ := flowsTo_cases hb hflow hstop
        have hw : runLoopBody E s.insts cfg li steps y w₁ = .ok (ended,w') := by
          rcases hterm with ht | ht <;> simpa [ht, hstop] using hw
        exact (ih hrest (flow_inner hcfg hxy) hw).trans hexec

lemma loopBody_twin (h : LaneShader s.insts cfg) (hcfg : buildCfg s.insts = .ok cfg)
    {li : LoopInfo} {bb : ℕ} {back : BasicBlock} (hback : cfg.blockAt li.backEdgeBlock = some (bb,back))
    (hret : back.terminator ≠ .ret) {steps cur : ℕ} (hflow : cfg.FlowsTo cur li.backEdgeBlock)
    (hcur : cfg.Inner cur) (hwv : SameLane L w v) (hvcc : VccAgrees s.insts cfg L cur w v)
    {ended ended' : Bool} (hw : runLoopBody E s.insts cfg li steps cur w = .ok (ended,w'))
    (hv : runLoopBody E s.insts cfg li steps cur v = .ok (ended',v')) :
    ended = false ∧ ended' = false ∧ SameLane L w' v' ∧
      (back.terminator.testsVcc = true → w'.vccBit L = v'.vccBit L) ∧
      ∀ y ∈ back.terminator.targets, VccAgrees s.insts cfg L y w' v' := by
  induction steps generalizing cur w v with
  | zero =>
    unfold runLoopBody at hw
    cases hw
  | succ steps ih =>
    unfold runLoopBody at hw hv
    cases hb : cfg.blockAt cur with
    | none => simp [hb] at hw
    | some p =>
      obtain ⟨bi,b⟩ := p
      simp only [hb] at hw hv
      obtain ⟨⟨ended₁,w₁⟩,hw₁,hw⟩ := bind_eq_ok.mp hw
      obtain ⟨⟨ended₂,v₁⟩,hv₁,hv⟩ := bind_eq_ok.mp hv
      obtain ⟨rfl,hsame,htest,hnext⟩ := block_twin h hcfg hb hcur hwv hvcc hw₁ hv₁
      by_cases hstop : cur = li.backEdgeBlock
      · subst hstop
        rw [hb] at hback
        cases hback
        obtain rfl : ended₂ = false := runBlockBody_flow hcfg (blockAt_eq_some.mp hb).2 hret hv₁
        simp only [Bool.false_eq_true, if_false, if_true] at hw hv
        cases hw
        cases hv
        exact ⟨rfl,rfl,hsame,htest,hnext⟩
      obtain ⟨y,hterm,hxy,hrest⟩ := flowsTo_cases hb hflow hstop
      have hout : b.terminator ≠ .ret := by rcases hterm with ht | ht <;> simp [ht]
      have hy : y ∈ b.terminator.targets := by
        rcases hterm with ht | ht <;> simp [ht, Terminator.targets]
      obtain rfl : ended₂ = false := runBlockBody_flow hcfg (blockAt_eq_some.mp hb).2 hout hv₁
      have hw : runLoopBody E s.insts cfg li steps y w₁ = .ok (ended,w') := by
        rcases hterm with ht | ht <;> simpa [ht, hstop] using hw
      have hv : runLoopBody E s.insts cfg li steps y v₁ = .ok (ended',v') := by
        rcases hterm with ht | ht <;> simpa [ht, hstop] using hv
      exact ih hrest (flow_inner hcfg hxy) hsame (hnext y hy) hw hv

end Region

/-- Two waves agree about a lane once it is as live in one as in the other. -/
def SameData (L : Lane) (w v : Wave) : Prop :=
  ∀ e e' : Mask, e.getLsbD L = e'.getLsbD L → SameLane L { w with exec := e } { v with exec := e' }

namespace SameData

variable {L : Lane} {w v u : Wave}

lemma of_sameLane (h : SameLane L w v) : SameData L w v :=
  fun _ _ he => ⟨h.sgprs,h.m0,h.vgprs,he,h.exports⟩

lemma refl (L : Lane) (w : Wave) : SameData L w w := of_sameLane (.refl L w)

lemma symm (h : SameData L w v) : SameData L v w := fun e e' he => (h e' e he.symm).symm

lemma trans (h : SameData L w v) (h' : SameData L v u) : SameData L w u :=
  fun e e' he => (h e e' he).trans (h' e' e' rfl)

lemma sameLane (h : SameData L w v) (hlive : w.laneLive L = v.laneLive L) : SameLane L w v :=
  h w.exec v.exec hlive

lemma setExec (w : Wave) (e : Mask) : SameData L w { w with exec := e } :=
  fun _ _ he => ⟨rfl,rfl,fun _ => rfl,he,rfl⟩

/-- Dropping the EXEC of a region. -/
lemma of_masked {mask : Mask} (h : SameLane L { w with exec := mask } v) : SameData L w v :=
  fun _ _ he => ⟨h.sgprs,h.m0,h.vgprs,he,h.exports⟩

end SameData

section Arms

variable {E : Env} {s : Stream} {cfg : Cfg} {L : Lane} {w w' v v' : Wave}

/-- A masked-off lane keeps its bit of VCC, or nothing from `x` on reads it. -/
lemma VccAgrees.dead {insts : List Decoded} {x : ℕ} {writes : Prop}
    (hvcc : VccAgrees insts cfg L x w v)
    (hw : w'.vccBit L = w.vccBit L ∨ writes ∧ w'.vccBit L = false)
    (hv : v'.vccBit L = v.vccBit L ∨ writes ∧ v'.vccBit L = false)
    (hwrites : writes → ¬VccLive insts cfg x) : VccAgrees insts cfg L x w' v' := by
  rcases hw with hw | ⟨hyes,-⟩
  · rcases hv with hv | ⟨hyes,-⟩
    · rwa [VccAgrees, hw, hv]
    · exact .inr (hwrites hyes)
  · exact .inr (hwrites hyes)

lemma arm_dead (h : LaneShader s.insts cfg) (hcfg : buildCfg s.insts = .ok cfg)
    {cap start merge : ℕ} {mask : Mask} (hflow : cfg.FlowsTo start merge) (hstart : cfg.Inner start)
    (hmask : mask.getLsbD L = false) {ended : Bool}
    (hw : runArm E s.insts cfg cap start merge mask w = .ok (ended,w')) :
    ended = false ∧ SameData L w w' ∧ (w'.vccBit L = w.vccBit L ∨
      WritesBefore s.insts cfg merge start ∧ w'.vccBit L = false) := by
  unfold runArm at hw
  split_ifs at hw
  · obtain ⟨hended,hsame,hbit⟩ := region_dead (w := { w with exec := mask }) h hcfg hflow hstart hmask hw
    exact ⟨hended,.of_masked hsame,hbit⟩
  · cases hw
    exact ⟨rfl,.refl L _,.inl rfl⟩

lemma arm_twin (h : LaneShader s.insts cfg) (hcfg : buildCfg s.insts = .ok cfg)
    {cap start merge : ℕ} {mask mask' : Mask} (hflow : cfg.FlowsTo start merge)
    (hstart : cfg.Inner start) (hmask : mask.getLsbD L = true) (hmask' : mask'.getLsbD L = true)
    (hwv : SameData L w v) (hvcc : VccAgrees s.insts cfg L start w v) {ended ended' : Bool}
    (hw : runArm E s.insts cfg cap start merge mask w = .ok (ended,w'))
    (hv : runArm E s.insts cfg cap start merge mask' v = .ok (ended',v')) :
    ended = false ∧ ended' = false ∧ SameData L w' v' ∧ VccAgrees s.insts cfg L merge w' v' := by
  have hne : mask ≠ 0 := fun heq => by simp [heq] at hmask
  have hne' : mask' ≠ 0 := fun heq => by simp [heq] at hmask'
  by_cases hempty : start = merge
  · simp only [runArm, hempty, ne_eq, not_true_eq_false, false_and, if_false] at hw hv
    cases hw
    cases hv
    exact ⟨rfl,rfl,hwv,hempty ▸ hvcc⟩
  · simp only [runArm, hempty, hne, hne', ne_eq, not_false_eq_true, and_self, if_true] at hw hv
    obtain ⟨hended,hended',hsame,hmerge⟩ :=
      region_twin h hcfg hflow hstart (hwv mask mask' (hmask.trans hmask'.symm)) hvcc hw hv
    exact ⟨hended,hended',.of_sameLane hsame,hmerge⟩

/-- Whether a lane takes the branch, by its bits of EXEC and VCC. -/
def BranchCond.laneTakes (live bit : Bool) : BranchCond → Bool
  | .vccz => live && !bit
  | .vccnz => live && bit
  | .execz => false
  | .execnz => live

lemma takenMask_bit (c : BranchCond) (w : Wave) (L : Lane) :
    (takenMask c w).getLsbD L = c.laneTakes (w.laneLive L) (w.vccBit L) := by
  have hL : L.val < 64 := L.isLt
  cases c with
  | vccz | vccnz =>
    simp only [takenMask, BranchCond.laneTakes, Wave.laneLive, Wave.vccBit, BitVec.getLsbD_and,
      BitVec.getLsbD_not, hL, decide_true, Bool.true_and]
  | execz =>
    unfold takenMask
    split_ifs with hzero <;> simp [hzero, BranchCond.laneTakes]
  | execnz =>
    by_cases hzero : w.exec = 0
    · simp [takenMask, BranchCond.laneTakes, Wave.laneLive, hzero]
    · simp only [takenMask, BranchCond.laneTakes, Wave.laneLive, if_pos (show w.exec ≠ 0 from hzero)]

lemma restMask_bit (mask : Mask) (w : Wave) (L : Lane) :
    (w.exec &&& ~~~mask).getLsbD L = (w.laneLive L && !mask.getLsbD L) := by
  have hL : L.val < 64 := L.isLt
  simp only [Wave.laneLive, BitVec.getLsbD_and, BitVec.getLsbD_not, hL, decide_true, Bool.true_and]

lemma continueMask_bit (c : BranchCond) (w : Wave) (L : Lane) :
    (continueMask c w).getLsbD L = c.laneTakes (w.laneLive L) (w.vccBit L) := by
  have hL : L.val < 64 := L.isLt
  cases c with
  | vccz | vccnz =>
    simp only [continueMask, BranchCond.laneTakes, Wave.laneLive, Wave.vccBit, BitVec.getLsbD_and,
      BitVec.getLsbD_not, hL, decide_true, Bool.true_and]
  | execz => simp [continueMask, BranchCond.laneTakes]
  | execnz => rfl

lemma laneTakes_dead (c : BranchCond) (bit : Bool) : c.laneTakes false bit = false := by
  cases c <;> rfl

/-- A branch on EXEC looks at no bit of VCC. -/
lemma laneTakes_twin {c : BranchCond} {live bit bit' : Bool} (htest : c.testsVcc = true → bit = bit') :
    c.laneTakes live bit = c.laneTakes live bit' := by
  cases c with
  | vccz | vccnz => rw [htest rfl]
  | execz | execnz => rfl

section Arms

variable {cap taken fall merge : ℕ} {mask mask' rest rest' : Mask} {next next' : Option ℕ}

/-- The run of a branch: the arm taken and, unless the program ended there, the other one. -/
def ArmsRun (E : Env) (insts : List Decoded) (cfg : Cfg) (cap taken fall merge : ℕ) (mask rest : Mask)
    (w : Wave) (next : Option ℕ) (w' : Wave) : Prop :=
  ∃ ended w₁, runArm E insts cfg cap taken merge mask w = .ok (ended,w₁) ∧
    (ended = false → ∃ ended w₂, runArm E insts cfg cap fall merge rest w₁ = .ok (ended,w₂) ∧
      (ended = false → next = some merge ∧ w' = { w₂ with exec := w.exec }))

lemma armsRun_of_runCond {bi start : ℕ} {c : BranchCond} (hmax : fall ≠ usizeMax)
    (hm : cfg.mergeTarget bi = some merge)
    (hw : runCond E s.insts cfg cap bi start c taken fall w = .ok (next,w')) :
    ArmsRun E s.insts cfg cap taken fall merge (takenMask c w) (w.exec &&& ~~~takenMask c w) w next
      w' := by
  rw [runCond, if_neg hmax, hm] at hw
  obtain ⟨⟨ended,w₁⟩,hw₁,hw⟩ := bind_eq_ok.mp hw
  refine ⟨ended,w₁,hw₁,?_⟩
  rintro rfl
  obtain ⟨⟨ended,w₂⟩,hw₂,hw⟩ := bind_eq_ok.mp hw
  refine ⟨ended,w₂,hw₂,?_⟩
  rintro rfl
  cases hw
  exact ⟨rfl,rfl⟩

variable (h : LaneShader s.insts cfg) (hcfg : buildCfg s.insts = .ok cfg)
  (hflow : cfg.FlowsTo taken merge) (hflow' : cfg.FlowsTo fall merge)
  (hinner : cfg.Inner taken) (hinner' : cfg.Inner fall)

include h hcfg hflow hflow' hinner hinner'

/-- A lane in neither arm keeps its data. -/
lemma arms_dead (hmask : mask.getLsbD L = false) (hrest : rest.getLsbD L = false)
    (hw : ArmsRun E s.insts cfg cap taken fall merge mask rest w next w') :
    next = some merge ∧ ∃ w₂, w' = { w₂ with exec := w.exec } ∧ SameData L w w₂ := by
  obtain ⟨ended,w₁,hw₁,hw⟩ := hw
  obtain ⟨hended,hdata,-⟩ := arm_dead h hcfg hflow hinner hmask hw₁
  obtain ⟨ended,w₂,hw₂,hw⟩ := hw hended
  obtain ⟨hended,hdata',-⟩ := arm_dead h hcfg hflow' hinner' hrest hw₂
  obtain ⟨hnext,hw'⟩ := hw hended
  exact ⟨hnext,w₂,hw',hdata.trans hdata'⟩

/-- The lane is in the first arm, and the second may clear its bit. -/
lemma arms_first (hmask : mask.getLsbD L = true) (hmask' : mask'.getLsbD L = true)
    (hrest : rest.getLsbD L = false) (hrest' : rest'.getLsbD L = false) (hwv : SameLane L w v)
    (hvcc : VccAgrees s.insts cfg L taken w v)
    (hsettled : WritesBefore s.insts cfg merge fall → ¬VccLive s.insts cfg merge)
    (hw : ArmsRun E s.insts cfg cap taken fall merge mask rest w next w')
    (hv : ArmsRun E s.insts cfg cap taken fall merge mask' rest' v next' v') :
    next = some merge ∧ next' = some merge ∧ SameLane L w' v' ∧
      VccAgrees s.insts cfg L merge w' v' := by
  obtain ⟨ended,w₁,hw₁,hw⟩ := hw
  obtain ⟨ended',v₁,hv₁,hv⟩ := hv
  obtain ⟨hended,hended',hdata,hagree⟩ := arm_twin h hcfg hflow hinner hmask hmask'
    (.of_sameLane hwv) hvcc hw₁ hv₁
  obtain ⟨ended,w₂,hw₂,hw⟩ := hw hended
  obtain ⟨ended',v₂,hv₂,hv⟩ := hv hended'
  obtain ⟨hended,hdata₁,hbit⟩ := arm_dead h hcfg hflow' hinner' hrest hw₂
  obtain ⟨hended',hdata₂,hbit'⟩ := arm_dead h hcfg hflow' hinner' hrest' hv₂
  obtain ⟨hnext,rfl⟩ := hw hended
  obtain ⟨hnext',rfl⟩ := hv hended'
  exact ⟨hnext,hnext',(hdata₁.symm.trans (hdata.trans hdata₂)) _ _ hwv.live,
    hagree.dead hbit hbit' hsettled⟩

/-- The lane is in the second arm, and the first may clear its bit before. -/
lemma arms_second (hmask : mask.getLsbD L = false) (hmask' : mask'.getLsbD L = false)
    (hrest : rest.getLsbD L = true) (hrest' : rest'.getLsbD L = true) (hwv : SameLane L w v)
    (hvcc : VccAgrees s.insts cfg L fall w v)
    (hsettled : WritesBefore s.insts cfg merge taken → ¬VccLive s.insts cfg fall)
    (hw : ArmsRun E s.insts cfg cap taken fall merge mask rest w next w')
    (hv : ArmsRun E s.insts cfg cap taken fall merge mask' rest' v next' v') :
    next = some merge ∧ next' = some merge ∧ SameLane L w' v' ∧
      VccAgrees s.insts cfg L merge w' v' := by
  obtain ⟨ended,w₁,hw₁,hw⟩ := hw
  obtain ⟨ended',v₁,hv₁,hv⟩ := hv
  obtain ⟨hended,hdata₁,hbit⟩ := arm_dead h hcfg hflow hinner hmask hw₁
  obtain ⟨hended',hdata₂,hbit'⟩ := arm_dead h hcfg hflow hinner hmask' hv₁
  have hagree := hvcc.dead hbit hbit' hsettled
  have hdata := hdata₁.symm.trans ((SameData.of_sameLane hwv).trans hdata₂)
  obtain ⟨ended,w₂,hw₂,hw⟩ := hw hended
  obtain ⟨ended',v₂,hv₂,hv⟩ := hv hended'
  obtain ⟨hended,hended',hdata,hagree⟩ :=
    arm_twin h hcfg hflow' hinner' hrest hrest' hdata hagree hw₂ hv₂
  obtain ⟨hnext,rfl⟩ := hw hended
  obtain ⟨hnext',rfl⟩ := hv hended'
  exact ⟨hnext,hnext',hdata _ _ hwv.live,hagree⟩

end Arms

/-- A lane goes through the arm it takes in both runs; the other arm may run beside it. -/
lemma cond_twin (h : LaneShader s.insts cfg) (hcfg : buildCfg s.insts = .ok cfg)
    {cap bi start taken fall : ℕ} {b : BasicBlock} {c : BranchCond} (hb : cfg.blocks[bi]? = some b)
    (hterm : b.terminator = .cond c taken fall) (hloop : cfg.loopOf bi = none)
    (hwv : SameLane L w v)
    (htest : w.laneLive L = true → c.testsVcc = true → w.vccBit L = v.vccBit L)
    (hnext : w.laneLive L = true → ∀ y ∈ b.terminator.targets, VccAgrees s.insts cfg L y w v)
    {next next' : Option ℕ}
    (hw : runCond E s.insts cfg cap bi start c taken fall w = .ok (next,w'))
    (hv : runCond E s.insts cfg cap bi start c taken fall v = .ok (next',v')) :
    next' = next ∧ SameLane L w' v' ∧ ∀ y, next = some y →
      cfg.Inner y ∧ (w'.laneLive L = true → VccAgrees s.insts cfg L y w' v') := by
  have htaken : taken ∈ b.terminator.targets := by simp [hterm, Terminator.targets]
  have hinner := target_inner hcfg hb htaken
  by_cases hmax : fall = usizeMax
  · rw [runCond, if_pos hmax] at hw hv
    cases hw
    cases hv
    refine ⟨rfl,hwv,fun y hy => ?_⟩
    cases hy
    exact ⟨hinner,fun hlive => hnext hlive _ htaken⟩
  have hfall : fall ∈ b.terminator.targets := by simp [hterm, Terminator.targets]
  have hinner' := target_inner hcfg hb hfall
  cases hm : cfg.mergeTarget bi with
  | none => simp [runCond, hmax, hm] at hw
  | some m =>
    obtain ⟨hflow,hflow'⟩ := mergeTarget_flowsTo hcfg hb hterm hm
    obtain ⟨hsettled,hsettled'⟩ := h.arms bi b c taken fall m hb hterm hloop hm
    have hmerge := flowsTo_inner hcfg hinner hflow
    have hrun := armsRun_of_runCond hmax hm hw
    have hrun' := armsRun_of_runCond hmax hm hv
    have hmask := takenMask_bit c w L
    have hmask' := takenMask_bit c v L
    have hrest := restMask_bit (takenMask c w) w L
    have hrest' := restMask_bit (takenMask c v) v L
    rw [hmask] at hrest
    rw [← hwv.live] at hmask' hrest'
    rw [hmask'] at hrest'
    cases hlive : w.laneLive L with
    | false =>
      rw [hlive, laneTakes_dead] at hmask hmask'
      rw [hlive, Bool.false_and] at hrest hrest'
      obtain ⟨rfl,w₂,rfl,hdata⟩ := arms_dead h hcfg hflow hflow' hinner hinner' hmask hrest hrun
      obtain ⟨rfl,v₂,rfl,hdata'⟩ := arms_dead h hcfg hflow hflow' hinner hinner' hmask' hrest' hrun'
      have hsame := hdata.symm.trans ((SameData.of_sameLane hwv).trans hdata')
      refine ⟨rfl,hsame _ _ hwv.live,fun y hy => ?_⟩
      cases hy
      exact ⟨hmerge,fun hlive' => absurd (hlive.symm.trans hlive') (by simp)⟩
    | true =>
      have hbits : c.laneTakes true (v.vccBit L) = c.laneTakes true (w.vccBit L) :=
        (laneTakes_twin (htest hlive)).symm
      rw [hlive] at hmask hmask'
      rw [hlive, Bool.true_and] at hrest hrest'
      rw [hbits] at hmask' hrest'
      have hvcc := hnext hlive
      have harms : next = some m ∧ next' = some m ∧ SameLane L w' v' ∧
          VccAgrees s.insts cfg L m w' v' := by
        cases htakes : c.laneTakes true (w.vccBit L) with
        | true =>
          rw [htakes] at hmask hmask' hrest hrest'
          exact arms_first h hcfg hflow hflow' hinner hinner' hmask hmask' hrest hrest' hwv
            (hvcc taken htaken) hsettled' hrun hrun'
        | false =>
          rw [htakes] at hmask hmask' hrest hrest'
          exact arms_second h hcfg hflow hflow' hinner hinner' hmask hmask' hrest hrest' hwv
            (hvcc fall hfall) hsettled hrun hrun'
      obtain ⟨rfl,rfl,hsame,hagree⟩ := harms
      refine ⟨rfl,hsame,fun y hy => ?_⟩
      cases hy
      exact ⟨hmerge,fun _ => hagree⟩

end Arms

section Loops

variable {E : Env} {s : Stream} {cfg : Cfg} {L : Lane} {w w' v v' : Wave}

/-- Iterations a lane has dropped out of only clear its bit of VCC. -/
lemma loop_dead (h : LaneShader s.insts cfg) (hcfg : buildCfg s.insts = .ok cfg) {bb : ℕ}
    {li : LoopInfo} {back : BasicBlock} (hloop : cfg.loopOf bb = some li)
    (hback : cfg.blockAt li.backEdgeBlock = some (bb,back)) (hret : back.terminator ≠ .ret)
    (hheader : cfg.Inner li.header) {cap iters : ℕ} {saved : Mask}
    (hmask : (continueMask li.cond w).getLsbD L = false) {ended : Bool}
    (hw : runLoop E s.insts cfg li cap saved iters w = .ok (ended,w')) :
    ended = false ∧ w'.exec = saved ∧ SameData L w w' ∧ (w'.vccBit L = w.vccBit L ∨
      LoopWrites s.insts cfg li ∧ w'.vccBit L = false) := by
  induction iters generalizing w with
  | zero =>
    unfold runLoop at hw
    dsimp only at hw
    split_ifs at hw
    cases hw
    exact ⟨rfl,rfl,.setExec _ _,.inl rfl⟩
  | succ iters ih =>
    unfold runLoop at hw
    dsimp only at hw
    split_ifs at hw
    · cases hw
      exact ⟨rfl,rfl,.setExec _ _,.inl rfl⟩
    obtain ⟨⟨ended₁,w₁⟩,hw₁,hw⟩ := bind_eq_ok.mp hw
    obtain ⟨rfl,hsame,hbit⟩ := loopBody_dead (w := { w with exec := continueMask li.cond w })
      h hcfg hback hret (h.closes bb li hloop) hheader hmask hw₁
    have hdead : w₁.laneLive L = false := hsame.live ▸ hmask
    have hmask₁ : (continueMask li.cond w₁).getLsbD L = false := by
      rw [continueMask_bit, hdead, laneTakes_dead]
    obtain ⟨hended,hexec,hdata,hbit'⟩ := ih hmask₁ hw
    refine ⟨hended,hexec,(SameData.of_masked hsame).trans hdata,?_⟩
    rcases hbit' with heq | hwrites
    · rw [heq]
      exact hbit.imp_right fun hwrites => ⟨hwrites.1.imp_right fun hyes => ⟨bb,back,hback,hyes⟩,hwrites.2⟩
    · exact .inr hwrites

/-- A lane that leaves a loop finds its data, and its bit of VCC where it is still read, as it
left them. -/
lemma loop_leave (h : LaneShader s.insts cfg) (hcfg : buildCfg s.insts = .ok cfg) {bb : ℕ}
    {li : LoopInfo} {back : BasicBlock} (hloop : cfg.loopOf bb = some li)
    (hback : cfg.blockAt li.backEdgeBlock = some (bb,back)) (hret : back.terminator ≠ .ret)
    (hheader : cfg.Inner li.header) {cap iters iters' : ℕ} {saved saved' : Mask}
    (hwv : SameLane L w v) (hmask : (continueMask li.cond w).getLsbD L = false)
    (hmask' : (continueMask li.cond v).getLsbD L = false) {ended ended' : Bool}
    (hw : runLoop E s.insts cfg li cap saved iters w = .ok (ended,w'))
    (hv : runLoop E s.insts cfg li cap saved' iters' v = .ok (ended',v')) :
    ended = false ∧ ended' = false ∧ w'.exec = saved ∧ v'.exec = saved' ∧ SameData L w' v' ∧
      (w.laneLive L = true → VccAgrees s.insts cfg L li.merge w v →
        VccAgrees s.insts cfg L li.merge w' v') := by
  obtain ⟨rfl,hexec,hdata,hbit⟩ := loop_dead h hcfg hloop hback hret hheader hmask hw
  obtain ⟨rfl,hexec',hdata',hbit'⟩ := loop_dead h hcfg hloop hback hret hheader hmask' hv
  refine ⟨rfl,rfl,hexec,hexec',hdata.symm.trans ((SameData.of_sameLane hwv).trans hdata'),?_⟩
  intro hlive hvcc
  by_cases hcond : li.cond = .vccnz
  · -- it left with its bit clear, and a masked-off lane never sets it
    rw [continueMask_bit, hcond, hlive] at hmask
    rw [continueMask_bit, hcond, ← hwv.live, hlive] at hmask'
    have hoff : w'.vccBit L = false := by
      rcases hbit with heq | hwrites
      · exact heq.trans hmask
      · exact hwrites.2
    have hoff' : v'.vccBit L = false := by
      rcases hbit' with heq | hwrites
      · exact heq.trans hmask'
      · exact hwrites.2
    exact .inl (hoff.trans hoff'.symm)
  · exact hvcc.dead hbit hbit' fun hwrites => (h.loops bb li hloop hwrites).resolve_left hcond

/-- A lane stays in the loop for as many iterations in both runs. -/
lemma loop_twin (h : LaneShader s.insts cfg) (hcfg : buildCfg s.insts = .ok cfg) {bb : ℕ}
    {li : LoopInfo} {back : BasicBlock} (hloop : cfg.loopOf bb = some li)
    (hback : cfg.blockAt li.backEdgeBlock = some (bb,back))
    (hterm : back.terminator = .cond li.cond li.header li.merge) (hheader : cfg.Inner li.header)
    {cap iters : ℕ} {saved saved' : Mask} (hwv : SameLane L w v) (hlive : w.laneLive L = true)
    (htest : li.cond.testsVcc = true → w.vccBit L = v.vccBit L)
    (hnext : ∀ y ∈ back.terminator.targets, VccAgrees s.insts cfg L y w v) {ended ended' : Bool}
    (hw : runLoop E s.insts cfg li cap saved iters w = .ok (ended,w'))
    (hv : runLoop E s.insts cfg li cap saved' iters v = .ok (ended',v')) :
    ended = false ∧ ended' = false ∧ w'.exec = saved ∧ v'.exec = saved' ∧ SameData L w' v' ∧
      VccAgrees s.insts cfg L li.merge w' v' := by
  have hret : back.terminator ≠ .ret := by simp [hterm]
  have hmerge : li.merge ∈ back.terminator.targets := by simp [hterm, Terminator.targets]
  have hhead : li.header ∈ back.terminator.targets := by simp [hterm, Terminator.targets]
  induction iters generalizing w v with
  | zero =>
    have hnone {u u' : Wave} {saved : Mask} {ended : Bool}
        (hu : runLoop E s.insts cfg li cap saved 0 u = .ok (ended,u')) :
        (continueMask li.cond u).getLsbD L = false := by
      unfold runLoop at hu
      dsimp only at hu
      split_ifs at hu with hzero
      simp [hzero]
    obtain ⟨hended,hended',hexec,hexec',hdata,hagree⟩ :=
      loop_leave h hcfg hloop hback hret hheader hwv (hnone hw) (hnone hv) hw hv
    exact ⟨hended,hended',hexec,hexec',hdata,hagree hlive (hnext _ hmerge)⟩
  | succ iters ih =>
    have hmask := continueMask_bit li.cond w L
    have hmask' := continueMask_bit li.cond v L
    rw [← hwv.live, hlive, ← laneTakes_twin htest] at hmask'
    rw [hlive] at hmask
    cases htakes : li.cond.laneTakes true (w.vccBit L) with
    | false =>
      obtain ⟨hended,hended',hexec,hexec',hdata,hagree⟩ := loop_leave h hcfg hloop hback hret hheader
        hwv (hmask.trans htakes) (hmask'.trans htakes) hw hv
      exact ⟨hended,hended',hexec,hexec',hdata,hagree hlive (hnext _ hmerge)⟩
    | true =>
      rw [htakes] at hmask hmask'
      have hne : continueMask li.cond w ≠ 0 := fun heq => by simp [heq] at hmask
      have hne' : continueMask li.cond v ≠ 0 := fun heq => by simp [heq] at hmask'
      unfold runLoop at hw hv
      simp only [hne, hne', if_false] at hw hv
      obtain ⟨⟨ended₁,w₁⟩,hw₁,hw⟩ := bind_eq_ok.mp hw
      obtain ⟨⟨ended₂,v₁⟩,hv₁,hv⟩ := bind_eq_ok.mp hv
      obtain ⟨rfl,rfl,hsame,htest₁,hnext₁⟩ := loopBody_twin
        (w := { w with exec := continueMask li.cond w })
        (v := { v with exec := continueMask li.cond v }) h hcfg hback hret
        (h.closes bb li hloop) hheader
        ((SameData.of_sameLane hwv) _ _ (hmask.trans hmask'.symm)) (hnext _ hhead) hw₁ hv₁
      have htest₁ : li.cond.testsVcc = true → w₁.vccBit L = v₁.vccBit L := by
        simpa [hterm, Terminator.testsVcc] using htest₁
      have hlive₁ : w₁.laneLive L = true := by
        rw [Wave.laneLive, loopBody_exec h hcfg (h.closes bb li hloop) hheader hw₁]
        exact hmask
      exact ih hsame hlive₁ htest₁ hnext₁ hw hv

end Loops

end Unemups4.Gcn
