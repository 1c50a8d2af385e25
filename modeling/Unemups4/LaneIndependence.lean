import Unemups4.LaneRegions

/-! Two launches of one shader that agree about a lane, beside other lanes. The scalar
instructions stand in the entry block; from there on both walks visit the same blocks, and
what is left of the lane is the same. -/
namespace Unemups4.Gcn
open Fallible

section Walk

variable {E : Env} {s : Stream} {cfg : Cfg} {L : Lane} {w w' v v' : Wave}

lemma terminator_twin (h : LaneShader s.insts cfg) (hcfg : buildCfg s.insts = .ok cfg)
    {cap bi : ℕ} {b : BasicBlock} (hb : cfg.blocks[bi]? = some b) (hwv : SameLane L w v)
    (htest : w.laneLive L = true → b.terminator.testsVcc = true → w.vccBit L = v.vccBit L)
    (hnext : w.laneLive L = true → ∀ y ∈ b.terminator.targets, VccAgrees s.insts cfg L y w v)
    {next next' : Option ℕ} (hw : runTerminator E s.insts cfg cap bi b w = .ok (next,w'))
    (hv : runTerminator E s.insts cfg cap bi b v = .ok (next',v')) :
    next' = next ∧ SameLane L w' v' ∧ ∀ y, next = some y →
      cfg.Inner y ∧ (w'.laneLive L = true → VccAgrees s.insts cfg L y w' v') := by
  unfold runTerminator at hw hv
  have hgoto {y : ℕ} (hy : y ∈ b.terminator.targets)
      (hw : (.ok (some y,w) : Except InterpError _) = .ok (next,w'))
      (hv : (.ok (some y,v) : Except InterpError _) = .ok (next',v')) :
      next' = next ∧ SameLane L w' v' ∧ ∀ y, next = some y →
        cfg.Inner y ∧ (w'.laneLive L = true → VccAgrees s.insts cfg L y w' v') := by
    cases hw
    cases hv
    refine ⟨rfl,hwv,fun x hx => ?_⟩
    cases hx
    exact ⟨target_inner hcfg hb hy,fun hlive => hnext hlive y hy⟩
  cases hterm : b.terminator with
  | ret =>
    rw [hterm] at hw hv
    cases hw
    cases hv
    exact ⟨rfl,hwv,by simp⟩
  | fallthrough target | branch target =>
    rw [hterm] at hw hv
    exact hgoto (by simp [hterm, Terminator.targets]) hw hv
  | cond c taken fall =>
    rw [hterm] at hw hv
    dsimp only at hw hv
    cases hloop : cfg.loopOf bi with
    | none =>
      simp only [hloop] at hw hv
      have htest' : w.laneLive L = true → c.testsVcc = true → w.vccBit L = v.vccBit L := by
        simpa [hterm, Terminator.testsVcc] using htest
      exact cond_twin h hcfg hb hterm hloop hwv htest' hnext hw hv
    | some li =>
      simp only [hloop] at hw hv
      obtain ⟨⟨ended₁,w₁⟩,hw₁,hw⟩ := bind_eq_ok.mp hw
      obtain ⟨⟨ended₂,v₁⟩,hv₁,hv⟩ := bind_eq_ok.mp hv
      obtain ⟨b',hb',hback,hstart,-⟩ := loopOf_eq_some hloop
      obtain rfl : b = b' := Option.some.inj (hb.symm.trans hb')
      have hat : cfg.blockAt li.backEdgeBlock = some (bi,b) :=
        blockAt_eq_some.mpr ⟨hstart ▸ (buildCfg_layout s.contiguous hcfg).blockIndexAt hb,hb⟩
      have hheader := target_inner hcfg hb (t := li.header) (by simp [hback, Terminator.targets])
      have hmerge := target_inner hcfg hb (t := li.merge) (by simp [hback, Terminator.targets])
      have hret : b.terminator ≠ .ret := by simp [hback]
      have hboth : ended₁ = false ∧ ended₂ = false ∧ w₁.exec = w.exec ∧ v₁.exec = v.exec ∧
          SameData L w₁ v₁ ∧
          (w.laneLive L = true → VccAgrees s.insts cfg L li.merge w₁ v₁) := by
        cases hlive : w.laneLive L with
        | true =>
          have htest' : li.cond.testsVcc = true → w.vccBit L = v.vccBit L := by
            simpa [hback, Terminator.testsVcc] using htest hlive
          obtain ⟨hended,hended',hexec,hexec',hdata,hagree⟩ := loop_twin h hcfg hloop hat hback
            hheader hwv hlive htest' (hnext hlive) hw₁ hv₁
          exact ⟨hended,hended',hexec,hexec',hdata,fun _ => hagree⟩
        | false =>
          have hmask : (continueMask li.cond w).getLsbD L = false := by
            rw [continueMask_bit, hlive, laneTakes_dead]
          have hmask' : (continueMask li.cond v).getLsbD L = false := by
            rw [continueMask_bit, ← hwv.live, hlive, laneTakes_dead]
          obtain ⟨hended,hended',hexec,hexec',hdata,-⟩ := loop_leave h hcfg hloop hat hret hheader
            hwv hmask hmask' hw₁ hv₁
          exact ⟨hended,hended',hexec,hexec',hdata,by simp⟩
      obtain ⟨rfl,rfl,hexec,hexec',hdata,hagree⟩ := hboth
      cases hw
      cases hv
      have hlive : w₁.laneLive L = w.laneLive L := by rw [Wave.laneLive, Wave.laneLive, hexec]
      have hlive' : v₁.laneLive L = v.laneLive L := by rw [Wave.laneLive, Wave.laneLive, hexec']
      refine ⟨rfl,hdata.sameLane (hlive.trans (hwv.live.trans hlive'.symm)),fun y hy => ?_⟩
      cases hy
      exact ⟨hmerge,fun hon => hagree (hlive ▸ hon)⟩

/-- Whether a body ends the wave does not depend on the wave. -/
lemma runBody_ended_eq {insts : List Decoded} {l : List ℕ} {ended ended' : Bool}
    (hw : runBody E insts l w = .ok (ended,w')) (hv : runBody E insts l v = .ok (ended',v')) :
    ended' = ended := by
  induction l generalizing w v with
  | nil =>
    cases hw
    cases hv
    rfl
  | cons i l ih =>
    unfold runBody at hw hv
    cases hd : insts[i]? with
    | none => simp [hd] at hw
    | some d =>
      simp only [hd] at hw hv
      split_ifs at hw hv
      · cases hw
        cases hv
        rfl
      · exact ih hw hv
      · obtain ⟨w₁,-,hw⟩ := bind_eq_ok.mp hw
        obtain ⟨v₁,-,hv⟩ := bind_eq_ok.mp hv
        exact ih hw hv

lemma walk_twin (h : LaneShader s.insts cfg) (hcfg : buildCfg s.insts = .ok cfg) {cap visits : ℕ}
    {start : Option ℕ} (hwv : SameLane L w v)
    (hstart : ∀ x, start = some x →
      cfg.Inner x ∧ (w.laneLive L = true → VccAgrees s.insts cfg L x w v))
    (hw : walk E s.insts cfg cap visits start w = .ok w')
    (hv : walk E s.insts cfg cap visits start v = .ok v') : SameLane L w' v' := by
  induction visits generalizing start w v with
  | zero =>
    cases start with
    | none =>
      cases hw
      cases hv
      exact hwv
    | some x => cases hw
  | succ visits ih =>
    cases start with
    | none =>
      cases hw
      cases hv
      exact hwv
    | some x =>
      obtain ⟨hx,hvcc⟩ := hstart x rfl
      unfold walk at hw hv
      cases hb : cfg.blockAt x with
      | none => simp [hb] at hw
      | some p =>
        obtain ⟨bi,b⟩ := p
        simp only [hb] at hw hv
        obtain ⟨⟨ended₁,w₁⟩,hw₁,hw⟩ := bind_eq_ok.mp hw
        obtain ⟨⟨ended₂,v₁⟩,hv₁,hv⟩ := bind_eq_ok.mp hv
        have hbody : ended₂ = ended₁ ∧ SameLane L w₁ v₁ ∧
            (w₁.laneLive L = true → b.terminator.testsVcc = true → w₁.vccBit L = v₁.vccBit L) ∧
            (w₁.laneLive L = true →
              ∀ y ∈ b.terminator.targets, VccAgrees s.insts cfg L y w₁ v₁) := by
          cases hlive : w.laneLive L with
          | true =>
            obtain ⟨hended,hsame,htest,hnext⟩ := block_twin h hcfg hb hx hwv (hvcc hlive) hw₁ hv₁
            exact ⟨hended,hsame,fun _ => htest,fun _ => hnext⟩
          | false =>
            obtain ⟨hsame,-⟩ := body_dead (h.body hcfg hb hx) hlive hw₁
            obtain ⟨hsame',-⟩ := body_dead (h.body hcfg hb hx) (hwv.live ▸ hlive) hv₁
            have hdead : w₁.laneLive L = false := hsame.live ▸ hlive
            exact ⟨runBody_ended_eq hw₁ hv₁,hsame.symm.trans (hwv.trans hsame'),
              by simp [hdead],by simp [hdead]⟩
        obtain ⟨rfl,hsame,htest,hnext⟩ := hbody
        cases ended₂ with
        | true =>
          cases hw
          cases hv
          exact hsame
        | false =>
          obtain ⟨⟨next,w₂⟩,hw₂,hw⟩ := bind_eq_ok.mp hw
          obtain ⟨⟨next',v₂⟩,hv₂,hv⟩ := bind_eq_ok.mp hv
          obtain ⟨rfl,hsame',hgo⟩ :=
            terminator_twin h hcfg (blockAt_eq_some.mp hb).2 hsame htest hnext hw₂ hv₂
          exact ih hsame' hgo hw hv

end Walk

/-- The launches put the same inputs in the lane, beside other lanes. -/
inductive SameInputs (L : Lane) : LaunchAbi → LaunchAbi → Prop
  | vertex (userSgprs : List Word) (firstVertex : Word) {n n' : ℕ} (live : L.val < n ↔ L.val < n') :
      SameInputs L (.vertex userSgprs firstVertex n) (.vertex userSgprs firstVertex n')
  | pixel (userSgprs : List Word) (inputs : PsInputs) {baryI baryI' baryJ baryJ' : Lane → Word}
      {exec exec' : Mask} (left : baryI L = baryI' L) (right : baryJ L = baryJ' L)
      (live : exec.getLsbD L = exec'.getLsbD L) :
      SameInputs L (.pixel userSgprs inputs baryI baryJ exec)
        (.pixel userSgprs inputs baryI' baryJ' exec')

section Launch

variable {L : Lane} {a b : LaunchAbi}

lemma vertexExec_bit (n : ℕ) (L : Lane) :
    (if min n waveSize = waveSize then BitVec.allOnes 64 else (1#64 <<< min n waveSize)-1).getLsbD
      L.val = decide (L.val < n) := by
  have hL : L.val < 64 := L.isLt
  split_ifs with hfull
  · rw [BitVec.getLsbD_allOnes, decide_eq_decide]
    unfold waveSize at hfull
    omega
  · have hlt : n < 64 := by
      unfold waveSize at hfull
      omega
    have hmin : min n waveSize = n := by
      unfold waveSize
      omega
    have hpow : (1#64 <<< n).toNat = 2^n := by
      rw [BitVec.toNat_shiftLeft, BitVec.toNat_ofNat, Nat.one_mod_two_pow (by decide), Nat.shiftLeft_eq,
        Nat.one_mul]
      exact Nat.mod_eq_of_lt (Nat.pow_lt_pow_right (by decide) hlt)
    have hle : 1#64 ≤ 1#64 <<< n := by
      rw [BitVec.le_def, hpow]
      exact Nat.one_le_two_pow
    have hval : ((1#64 <<< n)-1#64).toNat = 2^n-1 := by
      rw [BitVec.toNat_sub_of_le hle, hpow]
      rfl
    rw [hmin, BitVec.getLsbD, show (1 : Mask) = 1#64 from rfl, hval, Nat.testBit_two_pow_sub_one]

lemma SameInputs.launch (h : SameInputs L a b) :
    SameView L (initLaunch a) (initLaunch b) ∧ a.inputs = b.inputs := by
  cases h with
  | @vertex userSgprs firstVertex n n' hlive =>
    refine ⟨⟨⟨rfl,rfl,fun r => ?_,?_,rfl⟩,rfl⟩,rfl⟩
    · have hboth : L.val < min n waveSize ↔ L.val < min n' waveSize := by
        rw [lt_min_iff, lt_min_iff, hlive]
      simp only [initLaunch, hboth]
    · simp only [initLaunch, Wave.laneLive, vertexExec_bit, decide_eq_decide]
      exact hlive
  | pixel userSgprs inputs hi hj hlive =>
    refine ⟨⟨⟨rfl,rfl,fun r => ?_,hlive,rfl⟩,rfl⟩,rfl⟩
    simp only [initLaunch, hi, hj]

end Launch

/-- What is left of a lane after both launches is the same. -/
def LaneIndependent (F : FloatOps) (insts : List Decoded) (mem : Memory) (L : Lane)
    (a b : LaunchAbi) : Prop :=
  ∀ w v, runWave F insts a mem = .ok w → runWave F insts b mem = .ok v →
    (∀ n, w.vgprs n L = v.vgprs n L) ∧ w.laneExports L = v.laneExports L

/-- Beside other lanes, a lane of such a shader computes and exports the same. -/
theorem laneShader_independent (F : FloatOps) (s : Stream) {cfg : Cfg}
    (hcfg : buildCfg s.insts = .ok cfg) (h : LaneShader s.insts cfg) (mem : Memory) {L : Lane}
    {a b : LaunchAbi} (hab : SameInputs L a b) : LaneIndependent F s.insts mem L a b := by
  intro w v hw hv
  obtain ⟨hview,hinputs⟩ := hab.launch
  unfold runWave execute at hw hv
  rw [← hinputs] at hv
  simp only [hcfg, executeCfg] at hw hv
  suffices hsame : SameLane L w v from ⟨hsame.vgprs,hsame.exports⟩
  cases hblocks : cfg.blocks with
  | nil =>
    simp only [hblocks, List.head?_nil, Option.map_none, walk] at hw hv
    cases hw
    cases hv
    exact hview.toSameLane
  | cons entry rest =>
    have hentry : cfg.blocks[0]? = some entry := by simp [hblocks]
    have hat : cfg.blockAt entry.start = some (0,entry) :=
      blockAt_eq_some.mpr ⟨(buildCfg_layout s.contiguous hcfg).blockIndexAt hentry,hentry⟩
    obtain ⟨visits,hvisits⟩ : ∃ visits, visitCap cfg = visits+1 :=
      ⟨visitCap cfg-1,by unfold visitCap; omega⟩
    simp only [hblocks, List.head?_cons, Option.map_some, hvisits] at hw hv
    unfold walk at hw hv
    simp only [hat] at hw hv
    obtain ⟨⟨ended₁,w₁⟩,hw₁,hw⟩ := bind_eq_ok.mp hw
    obtain ⟨⟨ended₂,v₁⟩,hv₁,hv⟩ := bind_eq_ok.mp hv
    have hlocal : ∀ i ∈ entry.insts, ∀ d, s.insts[i]? = some d → LaneLocal d.inst := fun i hi d hd =>
      h.laneLocal d (List.mem_of_getElem? (body_live hcfg hentry hi hd))
    obtain ⟨rfl,hview₁⟩ := body_entry hlocal hview hw₁ hv₁
    cases ended₂ with
    | true =>
      cases hw
      cases hv
      exact hview₁.toSameLane
    | false =>
      obtain ⟨⟨next,w₂⟩,hw₂,hw⟩ := bind_eq_ok.mp hw
      obtain ⟨⟨next',v₂⟩,hv₂,hv⟩ := bind_eq_ok.mp hv
      obtain ⟨rfl,hsame,hgo⟩ := terminator_twin h hcfg hentry hview₁.toSameLane
        (fun _ _ => hview₁.vcc) (fun _ _ _ => .inl hview₁.vcc) hw₂ hv₂
      exact walk_twin h hcfg hsame hgo hw hv

/-- If only the entry block writes VCC, no region does. -/
lemma not_writesBefore {s : Stream} {cfg : Cfg} (hcfg : buildCfg s.insts = .ok cfg)
    (hquiet : ∀ bi b, cfg.blocks[bi]? = some b → bi ≠ 0 → settlesVcc s.insts b.insts = false)
    {stop x : ℕ} (hx : cfg.Inner x) : ¬WritesBefore s.insts cfg stop x := by
  intro hwrites
  induction hwrites with
  | here _ hat hyes =>
    obtain ⟨hbi,hb⟩ := blockAt_eq_some.mp hat
    have hne : _ ≠ 0 := fun heq => hx (heq ▸ hbi)
    rw [hquiet _ _ hb hne] at hyes
    cases hyes
  | later _ hflow _ ih => exact ih (flow_inner hcfg hflow)

instance (i : Inst) : Decidable (LaneLocal i) :=
  decidable_of_iff ((∀ o ∈ i.sources, o.isMask = false) ∧ i.comparesToVcc = true)
    ⟨fun h => ⟨h.1,h.2⟩,fun h => ⟨h.1,h.2⟩⟩

def noFloats : FloatOps where
  add _ _ := 0
  sub _ _ := 0
  mul _ _ := 0
  div _ _ := 0
  min _ _ := 0
  max _ _ := 0
  fma _ _ _ := 0
  abs _ := 0
  neg _ := 0
  floor _ := 0
  ceil _ := 0
  sqrt _ := 0
  sin _ := 0
  lt _ _ := false
  eq _ _ := false
  le _ _ := false
  ofU32 _ := 0
  ofI32 _ := 0
  toU32 _ := 0
  toI32 _ := 0
  toI64 _ := 0
  ofHalf _ := 0
  toHalf _ := 0

def noMemory : Memory := ⟨fun _ _ => .error "unmapped",nofun⟩

/-- The odd lanes skip the move. -/
def evenMove : Stream where
  insts := [⟨.vop2 .vAndB32 (.vgpr 1) (.inlineInt 1) (.vgpr 0) none,1,0⟩,
    ⟨.vop2 .vAddI32 (.vgpr 2) (.literal 0xffffffff#32) (.vgpr 1) none,2,1⟩,
    ⟨.sopp .sCbranchVccnz 1,1,3⟩,
    ⟨.vop1 .vMovB32 (.vgpr 3) (.vgpr 0),1,4⟩,
    ⟨.exp (.pos 0) [some (.vgpr 3),none,none,none] true false false,2,5⟩,
    ⟨.sopp .sEndpgm 0,1,7⟩]
  contiguous := by decide
  bounded := by decide

def evenMoveCfg : Cfg := ⟨[⟨0,[0,1,2],.cond .vccnz 5 4⟩,⟨4,[3],.fallthrough 5⟩,⟨5,[4,5],.ret⟩]⟩

lemma evenMove_laneShader (hcfg : buildCfg evenMove.insts = .ok evenMoveCfg) :
    LaneShader evenMove.insts evenMoveCfg := by
  have hquiet : ∀ bi b, evenMoveCfg.blocks[bi]? = some b → bi ≠ 0 →
      settlesVcc evenMove.insts b.insts = false := by
    intro bi b hb hne
    match bi with
    | 0 => exact absurd rfl hne
    | 1 | 2 =>
      cases hb
      rfl
    | bi+3 => cases hb
  have hnone : ∀ bi, evenMoveCfg.loopOf bi = none := by
    intro bi
    match bi with
    | 0 | 1 | 2 | bi+3 => rfl
  have hvector : ∀ d ∈ evenMove.insts, d.inst.isScalar = false := by decide
  refine ⟨by decide,fun _ _ _ _ i _ d hd => hvector d (List.mem_of_getElem? hd),?_,?_,?_⟩
  · intro bi b c taken fall m hb hterm _ _
    have hinner := target_inner hcfg hb (t := taken) (by simp [hterm, Terminator.targets])
    have hinner' := target_inner hcfg hb (t := fall) (by simp [hterm, Terminator.targets])
    exact ⟨fun hwrites => absurd hwrites (not_writesBefore hcfg hquiet hinner),
      fun hwrites => absurd hwrites (not_writesBefore hcfg hquiet hinner')⟩
  · intro bi li hloop
    rw [hnone] at hloop
    cases hloop
  · intro bi li hloop
    rw [hnone] at hloop
    cases hloop

theorem laneShader_independent_even : SameInputs 2 (.vertex [] 0 3) (.vertex [] 0 64) ∧
    LaneIndependent noFloats evenMove.insts noMemory 2 (.vertex [] 0 3) (.vertex [] 0 64) :=
  ⟨.vertex _ _ (by decide),laneShader_independent noFloats evenMove rfl
    (evenMove_laneShader rfl) noMemory (.vertex _ _ (by decide))⟩

/-- Every scalar instruction stands before the first branch. -/
def ScalarsFirst (insts : List Decoded) : Prop :=
  insts.Pairwise fun d e => ¬(isCfgBranch d = true ∧ e.inst.isScalar = true)

instance (insts : List Decoded) : Decidable (ScalarsFirst insts) :=
  inferInstanceAs (Decidable (insts.Pairwise _))

/-- The even lanes run an addition that clears the carry of the odd ones. -/
def maskedCarry : List Decoded :=
  [⟨.vop2 .vAndB32 (.vgpr 1) (.inlineInt 1) (.vgpr 0) none,1,0⟩,
   ⟨.vop2 .vAddI32 (.vgpr 2) (.literal 0xffffffff#32) (.vgpr 1) none,2,1⟩,
   ⟨.sopp .sCbranchVccnz 1,1,3⟩,
   ⟨.vop2 .vAddI32 (.vgpr 3) (.vgpr 0) (.vgpr 0) none,1,4⟩,
   ⟨.vop2 .vCndmaskB32 (.vgpr 2) (.inlineInt 0) (.vgpr 1) none,1,5⟩,
   ⟨.exp (.pos 0) [some (.vgpr 2),none,none,none] true false false,2,6⟩,
   ⟨.sopp .sEndpgm 0,1,8⟩]

/-- The scalar moves in the loop header run as often as the longest lane loops. -/
def scalarLoop : List Decoded :=
  [⟨.vop1 .vMovB32 (.vgpr 1) (.vgpr 0),1,0⟩,
   ⟨.sop1 .sMovB32 (.sgpr 4) (.sgpr 5),1,1⟩,
   ⟨.sop1 .sMovB32 (.sgpr 5) (.sgpr 6),1,2⟩,
   ⟨.vop2 .vAddI32 (.vgpr 1) (.literal 0xffffffff#32) (.vgpr 1) none,2,3⟩,
   ⟨.sopp .sCbranchVccnz (-5),1,5⟩,
   ⟨.vop1 .vMovB32 (.vgpr 2) (.sgpr 4),1,6⟩,
   ⟨.exp (.pos 0) [some (.vgpr 2),none,none,none] true false false,2,7⟩,
   ⟨.sopp .sEndpgm 0,1,9⟩]

/-- The loop header leaves the loop: the first lane to take the back-edge ends the wave. -/
def endingLoop : List Decoded :=
  [⟨.vop2 .vAndB32 (.vgpr 1) (.inlineInt 1) (.vgpr 0) none,1,0⟩,
   ⟨.vop2 .vAddI32 (.vgpr 2) (.literal 0xffffffff#32) (.vgpr 1) none,2,1⟩,
   ⟨.sopp .sBranch 1,1,3⟩,
   ⟨.sopp .sBranch 1,1,4⟩,
   ⟨.sopp .sCbranchVccnz (-2),1,5⟩,
   ⟨.exp (.pos 0) [some (.vgpr 1),none,none,none] true false false,2,6⟩,
   ⟨.sopp .sEndpgm 0,1,8⟩]

lemma LaneIndependent.exports {F : FloatOps} {insts : List Decoded} {mem : Memory} {L : Lane}
    {a b : LaunchAbi} (h : LaneIndependent F insts mem L a b) {x y : List ExportRecord}
    (hx : (runWave F insts a mem).toOption.map (·.laneExports L) = some x)
    (hy : (runWave F insts b mem).toOption.map (·.laneExports L) = some y) : x = y := by
  cases ha : runWave F insts a mem with
  | error e => simp [ha, Except.toOption] at hx
  | ok w =>
    cases hb : runWave F insts b mem with
    | error e => simp [hb, Except.toOption] at hy
    | ok v =>
      simp only [ha, hb, Except.toOption, Option.map_some, Option.some.injEq] at hx hy
      rw [← hx, ← hy]
      exact (h w v ha hb).2

/-- The lane of a vertex launch depends on whether a second one is live. -/
def DependsOnSecond (insts : List Decoded) (firstVertex : Word) (L : Lane) : Prop :=
  (buildCfg insts).toOption.isSome ∧ ScalarsFirst insts ∧ (∀ d ∈ insts, LaneLocal d.inst) ∧
    SameInputs L (.vertex [0,0,0,0,7,8,9] firstVertex 1) (.vertex [0,0,0,0,7,8,9] firstVertex 2) ∧
    ¬LaneIndependent noFloats insts noMemory L (.vertex [0,0,0,0,7,8,9] firstVertex 1)
      (.vertex [0,0,0,0,7,8,9] firstVertex 2)

theorem dependsOnSecond : DependsOnSecond maskedCarry 1 0 ∧ DependsOnSecond scalarLoop 0 0 ∧
    DependsOnSecond endingLoop 0 0 := by
  refine ⟨⟨by decide +kernel,by decide,by decide,.vertex _ _ (by decide),fun h => ?_⟩,
    ⟨by decide +kernel,by decide,by decide,.vertex _ _ (by decide),fun h => ?_⟩,
    ⟨by decide +kernel,by decide,by decide,.vertex _ _ (by decide),fun h => ?_⟩⟩
  · exact absurd (h.exports (x := [⟨0,.pos 0,#v[1,0,0,0]⟩]) (y := [⟨0,.pos 0,#v[0,0,0,0]⟩])
      (by decide +kernel) (by decide +kernel)) (by decide)
  · exact absurd (h.exports (x := [⟨0,.pos 0,#v[8,0,0,0]⟩]) (y := [⟨0,.pos 0,#v[9,0,0,0]⟩])
      (by decide +kernel) (by decide +kernel)) (by decide)
  · exact absurd (h.exports (x := [⟨0,.pos 0,#v[0,0,0,0]⟩]) (y := [])
      (by decide +kernel) (by decide +kernel)) (by decide)

end Unemups4.Gcn
