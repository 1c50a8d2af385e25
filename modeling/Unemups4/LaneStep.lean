import Unemups4.LaneView

/-! One vector instruction seen from a lane: the loop over the lanes splits at the lane
into shares of other lanes, which leave its view alone, and its own share. -/
namespace Unemups4.Gcn
open Fallible

namespace LaneWrite

/-- A predicate write goes to VCC. -/
def vccOnly : LaneWrite → Bool
  | .predicate o _ => o.isVcc
  | _ => true

def isPredicate : LaneWrite → Bool
  | .predicate .. => true
  | _ => false

end LaneWrite

lemma getLsbD_setBit (m : Mask) (lane L : Lane) (b : Bool) :
    (if b then m ||| 1#64 <<< lane.val else m &&& ~~~(1#64 <<< lane.val)).getLsbD L.val =
      if lane = L then b else m.getLsbD L.val := by
  have hL : L.val < 64 := L.isLt
  have hbit : (1#64 <<< lane.val).getLsbD L.val = decide (lane = L) := by
    rw [BitVec.getLsbD_shiftLeft]
    simp only [Fin.ext_iff]
    by_cases hlt : L.val < lane.val
    · have hne : lane.val ≠ L.val := by omega
      simp only [hlt, hne, decide_true, decide_false, Bool.not_true, Bool.and_false,
        Bool.false_and]
    · by_cases heq : lane.val = L.val
      · simp [heq, hL]
      · have hpos : L.val-lane.val ≠ 0 := by omega
        simp [BitVec.getLsbD_one, heq, hpos]
  cases b with
  | false =>
    rw [if_neg Bool.false_ne_true, BitVec.getLsbD_and, BitVec.getLsbD_not, hbit]
    by_cases heq : lane = L <;> simp [heq, hL]
  | true =>
    rw [if_pos rfl, BitVec.getLsbD_or, hbit]
    by_cases heq : lane = L <;> simp [heq]

/-- The wave after a predicate write to VCC. -/
lemma writePredicateBit_vcc {w w' : Wave} {dst : Operand} {lane : Lane} {b : Bool} {off : ℕ}
    (hdst : dst.isVcc = true) (h : w.writePredicateBit dst lane b off = .ok w') :
    w' = { w with vcc := if b then w.vcc ||| 1#64 <<< lane.val
      else w.vcc &&& ~~~(1#64 <<< lane.val) } := by
  cases dst with
  | special r =>
    cases r <;> simp_all [Operand.isVcc, Wave.writePredicateBit]
  | _ => simp [Operand.isVcc] at hdst

lemma setVgpr_ok {w w' : Wave} {n off : ℕ} {lane : Lane} {v : Word}
    (h : w.setVgpr n lane v off = .ok w') :
    w' = { w with vgprs := Function.update w.vgprs n (Function.update (w.vgprs n) lane v) } := by
  unfold Wave.setVgpr at h
  split_ifs at h
  exact (Except.ok.inj h).symm

lemma setVgpr_other {w w' : Wave} {n off : ℕ} {lane L : Lane} {v : Word} (hne : lane ≠ L)
    (h : w.setVgpr n lane v off = .ok w') : SameView L w w' := by
  obtain rfl := setVgpr_ok h
  refine ⟨⟨rfl,rfl,?_,rfl,rfl⟩,rfl⟩
  intro m
  by_cases hm : m = n
  · subst hm
    simp [hne.symm]
  · simp [hm]

lemma setVgpr_twin {w w' v v' : Wave} {n off : ℕ} {L : Lane} {x : Word} (hwv : SameLane L w v)
    (hw : w.setVgpr n L x off = .ok w') (hv : v.setVgpr n L x off = .ok v') : SameLane L w' v' := by
  obtain rfl := setVgpr_ok hw
  obtain rfl := setVgpr_ok hv
  refine ⟨hwv.sgprs,hwv.m0,?_,hwv.live,hwv.exports⟩
  intro m
  by_cases hm : m = n
  · subst hm
    simp
  · simpa [hm] using hwv.vgprs m

namespace Wave

variable {w w' v v' : Wave} {lane L : Lane} {off : ℕ} {x : LaneWrite}

lemma write_exec (hx : x.vccOnly = true) (h : w.write lane off x = .ok w') :
    w'.exec = w.exec := by
  cases x with
  | dst vdst bits =>
    cases vdst with
    | vgpr n => rw [setVgpr_ok h]
    | _ => simp [Wave.write, Wave.writeVgpr] at h
  | vgpr n bits => rw [setVgpr_ok h]
  | predicate dst b => rw [writePredicateBit_vcc hx h]
  | record target values =>
    cases h
    rfl

/-- The writes of another lane do not show. -/
lemma write_other (hne : lane ≠ L) (hx : x.vccOnly = true) (h : w.write lane off x = .ok w') :
    SameView L w w' := by
  cases x with
  | dst vdst bits =>
    cases vdst with
    | vgpr n => exact setVgpr_other hne h
    | _ => simp [Wave.write, Wave.writeVgpr] at h
  | vgpr n bits => exact setVgpr_other hne h
  | predicate dst b =>
    rw [writePredicateBit_vcc hx h]
    refine ⟨⟨rfl,rfl,fun _ => rfl,rfl,rfl⟩,?_⟩
    exact ((getLsbD_setBit w.vcc lane L b).trans (if_neg hne)).symm
  | record target values =>
    cases h
    exact ⟨⟨rfl,rfl,fun _ => rfl,rfl,by simp [laneExports, hne]⟩,rfl⟩

/-- The lane's own write moves two equal views alike, and a predicate write makes the
VCC bits equal. -/
lemma write_twin (hwv : SameLane L w v) (hx : x.vccOnly = true) (hw : w.write L off x = .ok w')
    (hv : v.write L off x = .ok v') :
    SameLane L w' v' ∧ (x.isPredicate = true ∨ w.vccBit L = v.vccBit L → w'.vccBit L = v'.vccBit L) := by
  cases x with
  | dst vdst bits =>
    cases vdst with
    | vgpr n =>
      refine ⟨setVgpr_twin hwv hw hv,?_⟩
      rw [setVgpr_ok hw, setVgpr_ok hv]
      simp [LaneWrite.isPredicate, vccBit]
    | _ => simp [Wave.write, Wave.writeVgpr] at hw
  | vgpr n bits =>
    refine ⟨setVgpr_twin hwv hw hv,?_⟩
    rw [setVgpr_ok hw, setVgpr_ok hv]
    simp [LaneWrite.isPredicate, vccBit]
  | predicate dst b =>
    rw [writePredicateBit_vcc hx hw, writePredicateBit_vcc hx hv]
    refine ⟨⟨hwv.sgprs,hwv.m0,hwv.vgprs,hwv.live,hwv.exports⟩,?_⟩
    intro
    simp only [vccBit, getLsbD_setBit, if_true]
  | record target values =>
    cases hw
    cases hv
    refine ⟨⟨hwv.sgprs,hwv.m0,hwv.vgprs,hwv.live,?_⟩,by simp [LaneWrite.isPredicate, vccBit]⟩
    have hexp := hwv.exports
    simp only [laneExports] at hexp
    simp [laneExports, hexp]

lemma writes_twin {ws : List LaneWrite} (hwv : SameLane L w v) (hws : ∀ x ∈ ws, x.vccOnly = true)
    (hw : ws.foldlM (Wave.write L off) w = .ok w') (hv : ws.foldlM (Wave.write L off) v = .ok v') :
    SameLane L w' v' ∧ ((∃ x ∈ ws, x.isPredicate = true) ∨ w.vccBit L = v.vccBit L →
      w'.vccBit L = v'.vccBit L) := by
  induction ws generalizing w v with
  | nil =>
    cases hw
    cases hv
    exact ⟨hwv,by simp⟩
  | cons x ws ih =>
    rw [List.foldlM_cons] at hw hv
    obtain ⟨w1,hw1,hw⟩ := bind_eq_ok.mp hw
    obtain ⟨v1,hv1,hv⟩ := bind_eq_ok.mp hv
    obtain ⟨hsame,hbit⟩ := write_twin hwv (hws x (by simp)) hw1 hv1
    obtain ⟨hsame',hbit'⟩ := ih hsame (fun y hy => hws y (List.mem_cons_of_mem _ hy)) hw hv
    refine ⟨hsame',?_⟩
    rintro (⟨y,hy,hpred⟩ | hagree)
    · rcases List.mem_cons.mp hy with rfl | hy
      · exact hbit' (.inr (hbit (.inl hpred)))
      · exact hbit' (.inl ⟨y,hy,hpred⟩)
    · exact hbit' (.inr (hbit (.inr hagree)))

end Wave

/-- The instruction's writes to masks all go to VCC. -/
structure LaneOp.VccOnly (op : LaneOp) : Prop where
  idle : ∀ x ∈ op.idle, x.vccOnly = true
  live : ∀ w lane ws, op.live w lane = .ok ws → ∀ x ∈ ws, x.vccOnly = true

namespace LaneOp

variable {op : LaneOp} {w w' v v' : Wave} {lane L : Lane} {off : ℕ}

/-- The writes of a lane's share, and the wave after them. -/
lemma step_ok (h : op.step off w lane = .ok w') :
    ∃ ws, (w.laneLive lane = true ∧ op.live w lane = .ok ws ∨
        w.laneLive lane = false ∧ ws = op.idle) ∧
      ws.foldlM (Wave.write lane off) w = .ok w' := by
  unfold LaneOp.step at h
  cases hlive : w.laneLive lane with
  | false =>
    simp only [hlive, Bool.false_eq_true, if_false] at h
    exact ⟨op.idle,.inr ⟨rfl,rfl⟩,h⟩
  | true =>
    simp only [hlive, if_true] at h
    obtain ⟨ws,hws,h⟩ := bind_eq_ok.mp h
    exact ⟨ws,.inl ⟨rfl,hws⟩,h⟩

lemma VccOnly.writes (hop : op.VccOnly) {ws : List LaneWrite}
    (hws : w.laneLive lane = true ∧ op.live w lane = .ok ws ∨
      w.laneLive lane = false ∧ ws = op.idle) : ∀ x ∈ ws, x.vccOnly = true := by
  rcases hws with ⟨-,hlive⟩ | ⟨-,rfl⟩
  · exact hop.live w lane ws hlive
  · exact hop.idle

lemma step_exec (hop : op.VccOnly) (h : op.step off w lane = .ok w') : w'.exec = w.exec := by
  obtain ⟨ws,hws,h⟩ := step_ok h
  symm
  apply foldlM_rel (R := fun s t => s.exec = t.exec) (fun _ => rfl) (fun _ _ _ => Eq.trans) ?_ h
  intro s x t hx hst
  exact (Wave.write_exec (hop.writes hws x hx) hst).symm

lemma step_other (hop : op.VccOnly) (hne : lane ≠ L) (h : op.step off w lane = .ok w') :
    SameView L w w' := by
  obtain ⟨ws,hws,h⟩ := step_ok h
  apply foldlM_rel (SameView.refl L) (fun _ _ _ => SameView.trans) ?_ h
  intro s x t hx hst
  exact Wave.write_other hne (hop.writes hws x hx) hst

lemma run_exec (hop : op.VccOnly) (h : op.run off w = .ok w') : w'.exec = w.exec := by
  symm
  apply foldlM_rel (R := fun s t => s.exec = t.exec) (fun _ => rfl) (fun _ _ _ => Eq.trans) ?_ h
  intro s x t _ hst
  exact (step_exec hop hst).symm

/-- Only the lane's own share shows in its view. -/
lemma run_split (hop : op.VccOnly) (h : op.run off w = .ok w') (L : Lane) :
    ∃ w1 w2, SameView L w w1 ∧ op.step off w1 L = .ok w2 ∧ SameView L w2 w' := by
  rw [LaneOp.run] at h
  apply foldlM_around (SameView.refl L) (fun _ _ _ => SameView.trans) (List.nodup_finRange waveSize)
    (List.mem_finRange L) ?_ h
  intro s x t hx hst
  exact step_other hop hx hst

end LaneOp

/-- A lane loop as the instruction `i` runs it: lane `L` computes its writes from its
own view, and exactly the VCC writers clear the bit of a masked-off lane. -/
structure LaneOp.Conforms (op : LaneOp) (i : Inst) : Prop extends op.VccOnly where
  same : ∀ L w v, SameLane L w v → (i.readsVcc = true → w.vccBit L = v.vccBit L) →
    op.live w L = op.live v L
  idle_eq : i.writesVcc = false ∧ op.idle = [] ∨
    i.writesVcc = true ∧ ∃ o : Operand, o.isVcc = true ∧ op.idle = [.predicate o false]
  writes : i.writesVcc = true → ∀ w lane ws, op.live w lane = .ok ws →
    ∃ x ∈ ws, x.isPredicate = true

namespace LaneOp

variable {i : Inst} {vdst src0 src1 src2 src3 pred : Operand} {off : ℕ}

/-- A lane loop that leaves the masks alone. -/
lemma conforms_of_quiet {op : LaneOp} (hi : i.writesVcc = false) (hidle : op.idle = [])
    (hlive : ∀ w lane ws, op.live w lane = .ok ws → ∀ x ∈ ws, x.isPredicate = false)
    (hsame : ∀ L w v, SameLane L w v → (i.readsVcc = true → w.vccBit L = v.vccBit L) →
      op.live w L = op.live v L) : op.Conforms i := by
  refine ⟨⟨by simp [hidle],?_⟩,hsame,.inl ⟨hi,hidle⟩,by simp [hi]⟩
  intro w lane ws hws x hx
  have := hlive w lane ws hws x hx
  cases x <;> simp_all [LaneWrite.isPredicate, LaneWrite.vccOnly]

lemma unary_conforms (hi : i.writesVcc = false) (h0 : src0.isMask = false) (f : Word → Word) :
    (unary vdst src0 off f).Conforms i := by
  apply conforms_of_quiet hi rfl
  · intro w lane ws h
    obtain ⟨a,-,h⟩ := bind_eq_ok.mp h
    cases h
    simp [LaneWrite.isPredicate]
  · intro L w v hwv _
    simp only [unary, hwv.readSrcLane h0]

lemma binary_conforms (hi : i.writesVcc = false) (h0 : src0.isMask = false)
    (h1 : src1.isMask = false) (f : Word → Word → Word) :
    (binary vdst src0 src1 off f).Conforms i := by
  apply conforms_of_quiet hi rfl
  · intro w lane ws h
    obtain ⟨a,-,h⟩ := bind_eq_ok.mp h
    obtain ⟨b,-,h⟩ := bind_eq_ok.mp h
    cases h
    simp [LaneWrite.isPredicate]
  · intro L w v hwv _
    simp only [binary, hwv.readSrcLane h0, hwv.readSrcLane h1]

lemma ternary_conforms (hi : i.writesVcc = false) (h0 : src0.isMask = false)
    (h1 : src1.isMask = false) (h2 : src2.isMask = false) (f : Word → Word → Word → Word) :
    (ternary vdst src0 src1 src2 off f).Conforms i := by
  apply conforms_of_quiet hi rfl
  · intro w lane ws h
    obtain ⟨a,-,h⟩ := bind_eq_ok.mp h
    obtain ⟨b,-,h⟩ := bind_eq_ok.mp h
    obtain ⟨c,-,h⟩ := bind_eq_ok.mp h
    cases h
    simp [LaneWrite.isPredicate]
  · intro L w v hwv _
    simp only [ternary, hwv.readSrcLane h0, hwv.readSrcLane h1, hwv.readSrcLane h2]

lemma quaternary_conforms (hi : i.writesVcc = false) (h0 : src0.isMask = false)
    (h1 : src1.isMask = false) (h2 : src2.isMask = false) (h3 : src3.isMask = false)
    (f : Word → Word → Word → Word → Word) :
    (quaternary vdst src0 src1 src2 src3 off f).Conforms i := by
  apply conforms_of_quiet hi rfl
  · intro w lane ws h
    obtain ⟨a,-,h⟩ := bind_eq_ok.mp h
    obtain ⟨b,-,h⟩ := bind_eq_ok.mp h
    obtain ⟨c,-,h⟩ := bind_eq_ok.mp h
    obtain ⟨d,-,h⟩ := bind_eq_ok.mp h
    cases h
    simp [LaneWrite.isPredicate]
  · intro L w v hwv _
    simp only [quaternary, hwv.readSrcLane h0, hwv.readSrcLane h1, hwv.readSrcLane h2,
      hwv.readSrcLane h3]

lemma select_conforms (hi : i.writesVcc = false) (h0 : src0.isMask = false)
    (h1 : src1.isMask = false) (hp : pred.isVcc = true → i.readsVcc = true) :
    (select vdst src0 src1 off pred).Conforms i := by
  apply conforms_of_quiet hi rfl
  · intro w lane ws h
    obtain ⟨a,-,h⟩ := bind_eq_ok.mp h
    obtain ⟨b,-,h⟩ := bind_eq_ok.mp h
    obtain ⟨c,-,h⟩ := bind_eq_ok.mp h
    cases h
    simp [LaneWrite.isPredicate]
  · intro L w v hwv hvcc
    simp only [select, hwv.readSrcLane h0, hwv.readSrcLane h1,
      hwv.readPredicateBit (fun h => hvcc (hp h))]

lemma compare_conforms (hi : i.writesVcc = true) (h0 : src0.isMask = false)
    (h1 : src1.isMask = false) (hp : pred.isVcc = true)
    (f : Word → Word → Except InterpError Bool) : (compare src0 src1 off pred f).Conforms i := by
  have hlive : ∀ w lane ws, (compare src0 src1 off pred f).live w lane = .ok ws →
      ∃ r, ws = [.predicate pred r] := by
    intro w lane ws h
    obtain ⟨a,-,h⟩ := bind_eq_ok.mp h
    obtain ⟨b,-,h⟩ := bind_eq_ok.mp h
    obtain ⟨r,-,h⟩ := bind_eq_ok.mp h
    cases h
    exact ⟨r,rfl⟩
  refine ⟨⟨by simp [compare, LaneWrite.vccOnly, hp],?_⟩,?_,.inr ⟨hi,pred,hp,rfl⟩,?_⟩
  · intro w lane ws h
    obtain ⟨r,rfl⟩ := hlive w lane ws h
    simp [LaneWrite.vccOnly, hp]
  · intro L w v hwv _
    simp only [compare, hwv.readSrcLane h0, hwv.readSrcLane h1]
  · intro _ w lane ws h
    obtain ⟨r,rfl⟩ := hlive w lane ws h
    simp [LaneWrite.isPredicate]

lemma addCarry_conforms (hi : i.writesVcc = true) (h0 : src0.isMask = false)
    (h1 : src1.isMask = false) : (addCarry vdst src0 src1 off).Conforms i := by
  have hlive : ∀ w lane ws, (addCarry vdst src0 src1 off).live w lane = .ok ws →
      ∃ r x, ws = [.predicate (.special .vccLo) r,.dst vdst x] := by
    intro w lane ws h
    obtain ⟨a,-,h⟩ := bind_eq_ok.mp h
    obtain ⟨b,-,h⟩ := bind_eq_ok.mp h
    cases h
    exact ⟨_,_,rfl⟩
  refine ⟨⟨by simp [addCarry, LaneWrite.vccOnly, Operand.isVcc],?_⟩,?_,
    .inr ⟨hi,.special .vccLo,rfl,rfl⟩,?_⟩
  · intro w lane ws h
    obtain ⟨r,x,rfl⟩ := hlive w lane ws h
    simp [LaneWrite.vccOnly, Operand.isVcc]
  · intro L w v hwv _
    simp only [addCarry, hwv.readSrcLane h0, hwv.readSrcLane h1]
  · intro _ w lane ws h
    obtain ⟨r,x,rfl⟩ := hlive w lane ws h
    simp [LaneWrite.isPredicate]

end LaneOp

section Conforms

variable {E : Env} {off : ℕ} {op : LaneOp}

lemma execVop1_conforms {o : Vop1Op} {vdst src0 : Operand} (hl : LaneLocal (.vop1 o vdst src0))
    (h : execVop1 E o vdst src0 off = .ok op) : op.Conforms (.vop1 o vdst src0) := by
  unfold execVop1 at h
  split_ifs at h
  cases h
  exact LaneOp.unary_conforms rfl (hl.sources _ (by simp [Inst.sources])) _

lemma execVop2_conforms {o : Vop2Op} {vdst src0 vsrc1 : Operand} {k : Option Word}
    (hl : LaneLocal (.vop2 o vdst src0 vsrc1 k)) (h : execVop2 E o vdst src0 vsrc1 k off = .ok op) :
    op.Conforms (.vop2 o vdst src0 vsrc1 k) := by
  have hd := hl.sources vdst (by simp [Inst.sources])
  have h0 := hl.sources src0 (by simp [Inst.sources])
  have h1 := hl.sources vsrc1 (by simp [Inst.sources])
  cases o with
  | vLshlrevB32 | vLshrrevB32 | vAndB32 | vCvtPkrtzF16F32 =>
    cases h
    exact LaneOp.binary_conforms rfl h0 h1 _
  | vAddI32 =>
    cases h
    exact LaneOp.addCarry_conforms rfl h0 h1
  | vCndmaskB32 =>
    cases h
    exact LaneOp.select_conforms rfl h0 h1 (fun _ => rfl)
  | other code => cases h
  | _ =>
    cases h
    exact LaneOp.ternary_conforms rfl h0 h1 hd _

lemma execVop3_conforms {o : Vop3Op} {vdst src0 src1 src2 : Operand} {abs neg : BitVec 8}
    {omod : ℕ} {clamp : Bool} (hl : LaneLocal (.vop3 o vdst src0 src1 src2 abs neg omod clamp))
    (h : execVop3 E o vdst src0 src1 src2 abs neg omod clamp off = .ok op) :
    op.Conforms (.vop3 o vdst src0 src1 src2 abs neg omod clamp) := by
  have h0 := hl.sources src0 (by cases o <;> simp [Inst.sources])
  have h1 := hl.sources src1 (by cases o <;> simp [Inst.sources])
  cases o with
  | cmp c =>
    simp only [execVop3] at h
    split_ifs at h
    cases h
    exact LaneOp.compare_conforms rfl h0 h1 hl.compare _
  | vCndmaskB32 =>
    cases h
    exact LaneOp.select_conforms rfl h0 h1 id
  | vMadU32U24 =>
    cases h
    exact LaneOp.ternary_conforms rfl h0 h1 (hl.sources _ (by simp [Inst.sources])) _
  | vCvtPkrtzF16F32 =>
    cases h
    exact LaneOp.binary_conforms rfl h0 h1 _
  | other code => cases h
  | _ =>
    cases h
    exact LaneOp.quaternary_conforms rfl h0 h1 (hl.sources _ (by simp [Inst.sources]))
      (hl.sources _ (by simp [Inst.sources])) _

lemma execVopc_conforms {o : VopcOp} {src0 vsrc1 : Operand} (hl : LaneLocal (.vopc o src0 vsrc1))
    (h : execVopc E o src0 vsrc1 off = .ok op) : op.Conforms (.vopc o src0 vsrc1) := by
  obtain ⟨_,-,h⟩ := bind_eq_ok.mp h
  cases h
  exact LaneOp.compare_conforms rfl (hl.sources _ (by simp [Inst.sources]))
    (hl.sources _ (by simp [Inst.sources])) rfl _

lemma execVintrp_conforms {o : VintrpOp} {vdst vsrc : Operand} {attr chan : ℕ}
    (hl : LaneLocal (.vintrp o vdst vsrc attr chan))
    (h : execVintrp E o vdst vsrc attr chan off = .ok op) :
    op.Conforms (.vintrp o vdst vsrc attr chan) := by
  have hd := hl.sources vdst (by simp [Inst.sources])
  have hs := hl.sources vsrc (by simp [Inst.sources])
  cases o with
  | vInterpP1F32 | vInterpMovF32 =>
    cases h
    exact LaneOp.unary_conforms rfl hs _
  | vInterpP2F32 =>
    cases h
    exact LaneOp.binary_conforms rfl hs hd _
  | other code => cases h

lemma execMubuf_conforms {w : Wave} {o : MubufOp} {vdata vaddr soffset : Operand} {srsrc offset : ℕ}
    {idxen offen : Bool} (hl : LaneLocal (.mubuf o vdata vaddr srsrc soffset offset idxen offen))
    (h : execMubuf E o vdata vaddr srsrc soffset offset idxen offen off w = .ok op) :
    op.Conforms (.mubuf o vdata vaddr srsrc soffset offset idxen offen) := by
  have ha := hl.sources vaddr (by simp [Inst.sources])
  unfold execMubuf at h
  split at h
  · cases h
  · obtain ⟨soff,-,h⟩ := bind_eq_ok.mp h
    obtain ⟨v,-,h⟩ := bind_eq_ok.mp h
    obtain ⟨vdata0,-,h⟩ := bind_eq_ok.mp h
    obtain ⟨offReg,-,h⟩ := bind_eq_ok.mp h
    cases h
    apply LaneOp.conforms_of_quiet rfl rfl
    · intro w lane ws h
      obtain ⟨index,-,h⟩ := bind_eq_ok.mp h
      obtain ⟨voffset,-,h⟩ := bind_eq_ok.mp h
      obtain ⟨bytes,-,h⟩ := bind_eq_ok.mp h
      cases h
      simp [LaneWrite.isPredicate]
    · intro L w v hwv _
      simp only [hwv.fetchIndex ha, hwv.fetchOffset]

lemma execMimg_conforms {w : Wave} {o : MimgOp} {vdata vaddr : Operand} {srsrc ssamp : ℕ}
    {dmask : BitVec 8} {unrm : Bool}
    (h : execMimg E o vdata vaddr srsrc ssamp dmask unrm off w = .ok op) :
    op.Conforms (.mimg o vdata vaddr srsrc ssamp dmask unrm) := by
  unfold execMimg at h
  split_ifs at h
  obtain ⟨t,-,h⟩ := bind_eq_ok.mp h
  obtain ⟨bilinear,-,h⟩ := bind_eq_ok.mp h
  obtain ⟨vdata0,-,h⟩ := bind_eq_ok.mp h
  obtain ⟨vu,-,h⟩ := bind_eq_ok.mp h
  cases h
  apply LaneOp.conforms_of_quiet rfl rfl
  · intro w lane ws h
    obtain ⟨u,-,h⟩ := bind_eq_ok.mp h
    obtain ⟨v,-,h⟩ := bind_eq_ok.mp h
    obtain ⟨rgba,-,h⟩ := bind_eq_ok.mp h
    cases h
    intro x hx
    obtain ⟨⟨ch,n⟩,-,rfl⟩ := List.mem_map.mp hx
    rfl
  · intro L w v hwv _
    simp only [hwv.vgpr]

lemma SameLane.slot {L : Lane} {w v : Wave} (h : SameLane L w v) {srcs : List (Option Operand)}
    (hs : ∀ o ∈ srcs.filterMap id, o.isMask = false) (n : ℕ) :
    w.slot srcs L off n = v.slot srcs L off n ∧
      w.halfSlot E.floats srcs L off n = v.halfSlot E.floats srcs L off n := by
  have hsrc : ∀ o, srcs[n]?.join = some o → o.isMask = false := by
    intro o ho
    apply hs
    have hn : srcs[n]? = some (some o) := by
      cases hn : srcs[n]? <;> simp_all
    exact List.mem_filterMap.mpr ⟨_,List.mem_of_getElem? hn,rfl⟩
  unfold Wave.slot Wave.halfSlot
  cases ho : srcs[n]?.join with
  | none => exact ⟨rfl,rfl⟩
  | some o => simp only [h.readSrcLane (hsrc o ho), and_self]

lemma execExp_conforms {target : ExportTarget} {srcs : List (Option Operand)} {done compr vm : Bool}
    (hl : LaneLocal (.exp target srcs done compr vm)) :
    (execExp E target srcs compr off).Conforms (.exp target srcs done compr vm) := by
  cases compr with
  | false =>
    apply LaneOp.conforms_of_quiet rfl rfl
    · intro w lane ws h
      obtain ⟨r,-,h⟩ := bind_eq_ok.mp h
      obtain ⟨g,-,h⟩ := bind_eq_ok.mp h
      obtain ⟨b,-,h⟩ := bind_eq_ok.mp h
      obtain ⟨a,-,h⟩ := bind_eq_ok.mp h
      cases h
      simp [LaneWrite.isPredicate]
    · intro L w v hwv _
      simp only [execExp, Bool.false_eq_true, if_false, (hwv.slot (E := E) hl.sources _).1]
  | true =>
    apply LaneOp.conforms_of_quiet rfl rfl
    · intro w lane ws h
      obtain ⟨⟨r,g⟩,-,h⟩ := bind_eq_ok.mp h
      obtain ⟨⟨b,a⟩,-,h⟩ := bind_eq_ok.mp h
      cases h
      simp [LaneWrite.isPredicate]
    · intro L w v hwv _
      simp only [execExp, if_true, (hwv.slot (E := E) hl.sources _).2]

theorem laneOp_conforms {d : Decoded} {w : Wave} (hl : LaneLocal d.inst)
    (h : laneOp E d w = some (.ok op)) : op.Conforms d.inst := by
  unfold laneOp at h
  cases hd : d.inst <;> simp only [hd, Option.some.injEq, reduceCtorEq] at h hl
  case vop1 => exact execVop1_conforms hl h
  case vop2 => exact execVop2_conforms hl h
  case vop3 => exact execVop3_conforms hl h
  case vopc => exact execVopc_conforms hl h
  case vintrp => exact execVintrp_conforms hl h
  case mubuf => exact execMubuf_conforms hl h
  case mimg => exact execMimg_conforms h
  case exp =>
    cases h
    exact execExp_conforms hl

/-- The lane loop does not depend on the other lanes either. -/
lemma laneOp_same {d : Decoded} {L : Lane} {w v : Wave} (hl : LaneLocal d.inst)
    (hwv : SameLane L w v) : laneOp E d w = laneOp E d v := by
  unfold laneOp
  cases hd : d.inst with
  | mubuf o vdata vaddr srsrc soffset offset idxen offen =>
    rw [hd] at hl
    simp only [execMubuf, hwv.decodeVSharp, offenReg_eq w v,
      hwv.mubufSoffset (hl.sources soffset (by simp [Inst.sources]))]
  | mimg o vdata vaddr srsrc ssamp dmask unrm =>
    simp only [execMimg, hwv.decodeTSharp, hwv.decodeSSharp]
  | _ => rfl

end Conforms

namespace LaneOp.Conforms

variable {op : LaneOp} {i : Inst} {L : Lane} {off : ℕ} {w w' v v' : Wave}

lemma step_twin (hop : op.Conforms i) (hwv : SameLane L w v)
    (hreads : i.readsVcc = true → w.vccBit L = v.vccBit L) (hw : op.step off w L = .ok w')
    (hv : op.step off v L = .ok v') :
    SameLane L w' v' ∧ (i.writesVcc = true ∨ w.vccBit L = v.vccBit L → w'.vccBit L = v'.vccBit L) := by
  obtain ⟨ws,hws,hw⟩ := step_ok hw
  obtain ⟨ws',hws',hv⟩ := step_ok hv
  have hvcc := hop.toVccOnly.writes hws
  -- both lanes make the same writes, among them one to VCC when the instruction has one
  obtain ⟨rfl,hpred⟩ : ws' = ws ∧ (i.writesVcc = true → ∃ x ∈ ws, x.isPredicate = true) := by
    rw [← hwv.live] at hws'
    rcases hws with ⟨hlive,hws⟩ | ⟨hdead,rfl⟩
    · rcases hws' with ⟨-,hws'⟩ | ⟨hdead,-⟩
      · rw [← hop.same L w v hwv hreads, hws] at hws'
        cases hws'
        exact ⟨rfl,fun hi => hop.writes hi w L ws hws⟩
      · simp [hlive] at hdead
    · rcases hws' with ⟨hlive,-⟩ | ⟨-,rfl⟩
      · simp [hdead] at hlive
      · refine ⟨rfl,fun hi => ?_⟩
        rcases hop.idle_eq with ⟨hi',-⟩ | ⟨-,o,-,hidle⟩
        · simp [hi] at hi'
        · simp [hidle, LaneWrite.isPredicate]
  obtain ⟨hsame,hbit⟩ := Wave.writes_twin hwv hvcc hw hv
  exact ⟨hsame,fun h => hbit (h.imp_left hpred)⟩

lemma step_dead (hop : op.Conforms i) (hdead : w.laneLive L = false)
    (h : op.step off w L = .ok w') :
    SameLane L w w' ∧
      (w'.vccBit L = w.vccBit L ∨ i.writesVcc = true ∧ w'.vccBit L = false) := by
  obtain ⟨ws,hws,h⟩ := step_ok h
  rcases hws with ⟨hlive,-⟩ | ⟨-,rfl⟩
  · simp [hdead] at hlive
  rcases hop.idle_eq with ⟨-,hidle⟩ | ⟨hi,o,ho,hidle⟩
  · rw [hidle] at h
    cases h
    exact ⟨SameLane.refl L w,.inl rfl⟩
  · rw [hidle, List.foldlM_cons] at h
    obtain ⟨w1,hw1,h⟩ := bind_eq_ok.mp h
    cases h
    rw [writePredicateBit_vcc ho hw1]
    refine ⟨⟨rfl,rfl,fun _ => rfl,rfl,rfl⟩,.inr ⟨hi,?_⟩⟩
    exact (getLsbD_setBit w.vcc L L false).trans (if_pos rfl)

end LaneOp.Conforms

section ExecOne

variable {E : Env} {d : Decoded} {L : Lane} {w w' v v' : Wave}

lemma execOne_vector (hd : d.inst.isScalar = false) (h : execOne E d w = .ok w') :
    ∃ op, laneOp E d w = some (.ok op) ∧ op.run d.offsetDwords w = .ok w' := by
  unfold execOne at h
  split at h
  · rename_i op hop
    obtain ⟨op,rfl,h⟩ := bind_eq_ok.mp h
    exact ⟨op,hop,h⟩
  · cases hi : d.inst <;> simp_all [Inst.isScalar]

lemma execOne_exec (hd : d.inst.isScalar = false) (hl : LaneLocal d.inst)
    (h : execOne E d w = .ok w') : w'.exec = w.exec := by
  obtain ⟨op,hop,h⟩ := execOne_vector hd h
  exact LaneOp.run_exec (laneOp_conforms hl hop).toVccOnly h

theorem execOne_twin (hd : d.inst.isScalar = false) (hl : LaneLocal d.inst)
    (hwv : SameLane L w v) (hreads : d.inst.readsVcc = true → w.vccBit L = v.vccBit L)
    (hw : execOne E d w = .ok w') (hv : execOne E d v = .ok v') :
    SameLane L w' v' ∧
      (d.inst.writesVcc = true ∨ w.vccBit L = v.vccBit L → w'.vccBit L = v'.vccBit L) := by
  obtain ⟨op,hop,hw⟩ := execOne_vector hd hw
  obtain ⟨op',hop',hv⟩ := execOne_vector hd hv
  rw [← laneOp_same hl hwv, hop] at hop'
  cases hop'
  have hconf := laneOp_conforms hl hop
  obtain ⟨w1,w2,hw1,hw2,hw3⟩ := LaneOp.run_split hconf.toVccOnly hw L
  obtain ⟨v1,v2,hv1,hv2,hv3⟩ := LaneOp.run_split hconf.toVccOnly hv L
  have hmid : SameLane L w1 v1 := hw1.toSameLane.symm.trans (hwv.trans hv1.toSameLane)
  have hbits : w1.vccBit L = v1.vccBit L ↔ w.vccBit L = v.vccBit L := by
    rw [hw1.vcc, hv1.vcc]
  obtain ⟨hsame,hbit⟩ := hconf.step_twin hmid (fun hr => hbits.mpr (hreads hr)) hw2 hv2
  refine ⟨hw3.toSameLane.symm.trans (hsame.trans hv3.toSameLane),fun h => ?_⟩
  rw [← hw3.vcc, ← hv3.vcc]
  exact hbit (h.imp_right hbits.mpr)

theorem execOne_dead (hd : d.inst.isScalar = false) (hl : LaneLocal d.inst)
    (hdead : w.laneLive L = false) (h : execOne E d w = .ok w') :
    SameLane L w w' ∧
      (w'.vccBit L = w.vccBit L ∨ d.inst.writesVcc = true ∧ w'.vccBit L = false) := by
  obtain ⟨op,hop,h⟩ := execOne_vector hd h
  have hconf := laneOp_conforms hl hop
  obtain ⟨w1,w2,hw1,hw2,hw3⟩ := LaneOp.run_split hconf.toVccOnly h L
  obtain ⟨hsame,hbit⟩ := hconf.step_dead (hw1.live ▸ hdead) hw2
  refine ⟨hw1.toSameLane.trans (hsame.trans hw3.toSameLane),?_⟩
  rw [← hw3.vcc, hw1.vcc]
  exact hbit

lemma setSgpr_twin {n off : ℕ} {x : Word} (hwv : SameView L w v) (hw : w.setSgpr n x off = .ok w')
    (hv : v.setSgpr n x off = .ok v') : SameView L w' v' := by
  unfold Wave.setSgpr at hw hv
  split_ifs at hw hv
  cases hw
  cases hv
  exact ⟨⟨by simp only [hwv.sgprs],hwv.m0,hwv.vgprs,hwv.live,hwv.exports⟩,hwv.vcc⟩

lemma setSgprs_twin {off : ℕ} {xs : List (ℕ × Word)} (hwv : SameView L w v)
    (hw : w.setSgprs off xs = .ok w') (hv : v.setSgprs off xs = .ok v') : SameView L w' v' := by
  induction xs generalizing w v with
  | nil =>
    cases hw
    cases hv
    exact hwv
  | cons x xs ih =>
    obtain ⟨w1,hw1,hw⟩ := bind_eq_ok.mp hw
    obtain ⟨v1,hv1,hv⟩ := bind_eq_ok.mp hv
    exact ih (setSgpr_twin hwv hw1 hv1) hw hv

lemma writeSgpr_twin {o : Operand} {off : ℕ} {x : Word} (hwv : SameView L w v)
    (hw : w.writeSgpr o x off = .ok w') (hv : v.writeSgpr o x off = .ok v') : SameView L w' v' := by
  have hbit := hwv.vcc
  unfold Wave.writeSgpr at hw hv
  split at hw
  · exact setSgpr_twin hwv hw hv
  · cases hw
    cases hv
    exact ⟨⟨hwv.sgprs,rfl,hwv.vgprs,hwv.live,hwv.exports⟩,hwv.vcc⟩
  · cases hw
    cases hv
    refine ⟨⟨hwv.sgprs,hwv.m0,hwv.vgprs,hwv.live,hwv.exports⟩,?_⟩
    simp only [Wave.vccBit, BitVec.getLsbD_or, BitVec.getLsbD_and] at hbit ⊢
    rw [hbit]
  · cases hw
    cases hv
    refine ⟨⟨hwv.sgprs,hwv.m0,hwv.vgprs,hwv.live,hwv.exports⟩,?_⟩
    simp only [Wave.vccBit, BitVec.getLsbD_or, BitVec.getLsbD_and] at hbit ⊢
    rw [hbit]
  · cases hw

lemma writeScalarPair_twin {o : Operand} {off : ℕ} {x : BitVec 64} (hwv : SameView L w v)
    (hw : w.writeScalarPair o x off = .ok w') (hv : v.writeScalarPair o x off = .ok v') :
    SameView L w' v' := by
  unfold Wave.writeScalarPair at hw hv
  split at hw
  · obtain ⟨w1,hw1,hw⟩ := bind_eq_ok.mp hw
    obtain ⟨v1,hv1,hv⟩ := bind_eq_ok.mp hv
    exact setSgpr_twin (setSgpr_twin hwv hw1 hv1) hw hv
  · cases hw
    cases hv
    exact ⟨⟨hwv.sgprs,hwv.m0,hwv.vgprs,rfl,hwv.exports⟩,hwv.vcc⟩
  · cases hw
    cases hv
    exact ⟨⟨hwv.sgprs,hwv.m0,hwv.vgprs,hwv.live,hwv.exports⟩,rfl⟩
  · cases hw

/-- A scalar instruction that reads no mask keeps two equal views equal. -/
theorem execOne_scalar (hd : d.inst.isScalar = true) (hl : LaneLocal d.inst)
    (hwv : SameView L w v) (hw : execOne E d w = .ok w') (hv : execOne E d v = .ok v') :
    SameView L w' v' := by
  cases hi : d.inst <;> simp only [hi, Inst.isScalar, Bool.false_eq_true] at hd
  case sop1 o sdst ssrc0 =>
    have hs : ssrc0.isMask = false := hl.sources _ (by simp [hi, Inst.sources])
    simp only [execOne, laneOp, hi] at hw hv
    unfold execSop1 at hw hv
    split at hw
    · rw [← hwv.readScalar hs] at hv
      obtain ⟨x,hx,hw⟩ := bind_eq_ok.mp hw
      rw [hx] at hv
      exact writeSgpr_twin hwv hw hv
    · rw [← hwv.readScalarPair hs] at hv
      obtain ⟨x,hx,hw⟩ := bind_eq_ok.mp hw
      rw [hx] at hv
      exact writeScalarPair_twin hwv hw hv
    · rw [← hwv.readScalarPair hs] at hv
      obtain ⟨x,hx,hw⟩ := bind_eq_ok.mp hw
      rw [hx] at hv
      exact writeScalarPair_twin hwv hw hv
    · cases hw
  case smrd o sdst sbase imm offset =>
    simp only [execOne, laneOp, hi] at hw hv
    unfold execSmrd at hw hv
    rw [← hwv.smrdAddr] at hv
    cases hcount : o.dstCount with
    | none => simp [hcount] at hw
    | some count =>
      simp only [hcount] at hw hv
      obtain ⟨addr,haddr,hw⟩ := bind_eq_ok.mp hw
      obtain ⟨bytes,hbytes,hw⟩ := bind_eq_ok.mp hw
      simp only [haddr, hbytes, ok_bind] at hv
      cases sdst with
      | sgpr n => exact setSgprs_twin hwv hw hv
      | _ => cases hw

end ExecOne

end Unemups4.Gcn
