import Unemups4.InterpCfg

/-! What one lane sees of the wave, and how a vector instruction moves that view: the
share of another lane leaves it alone, and the lane's own share depends on nothing
else. The lane's bit of VCC is kept apart, since a masked-off lane loses it. -/
namespace Unemups4.Gcn
open Fallible

/-- A special register that holds one bit per lane or a wave-wide condition. -/
def Operand.isMask : Operand → Bool
  | .special .vccLo | .special .vccHi | .special .execLo | .special .execHi | .special .scc => true
  | _ => false

def Operand.isVcc : Operand → Bool
  | .special .vccLo | .special .vccHi => true
  | _ => false

/-- The operands an instruction reads for their value. The condition of a branch and
the selector of a `v_cndmask` are not among them. -/
def Inst.sources : Inst → List Operand
  | .sop1 _ _ ssrc0 => [ssrc0]
  | .vop1 _ _ src0 => [src0]
  | .vop2 _ vdst src0 vsrc1 _ => [vdst,src0,vsrc1]
  | .vop3 (.cmp _) _ src0 src1 .. => [src0,src1]
  | .vop3 .vCndmaskB32 _ src0 src1 .. => [src0,src1]
  | .vop3 _ vdst src0 src1 src2 .. => [vdst,src0,src1,src2]
  | .vopc _ src0 vsrc1 => [src0,vsrc1]
  | .vintrp _ vdst vsrc .. => [vdst,vsrc]
  | .mubuf _ _ vaddr _ soffset .. => [vaddr,soffset]
  | .exp _ srcs .. => srcs.filterMap id
  | _ => []

def Inst.isScalar : Inst → Bool
  | .sop1 .. | .smrd .. => true
  | _ => false

/-- Every comparison that names its destination names VCC. -/
def Inst.comparesToVcc : Inst → Bool
  | .vop3 (.cmp _) vdst .. => vdst.isVcc
  | _ => true

def Inst.readsVcc : Inst → Bool
  | .vop2 .vCndmaskB32 .. => true
  | .vop3 .vCndmaskB32 _ _ _ src2 .. => src2.isVcc
  | _ => false

/-- The vector instructions that write VCC at every lane. -/
def Inst.writesVcc : Inst → Bool
  | .vopc .. | .vop2 .vAddI32 .. | .vop3 (.cmp _) .. => true
  | _ => false

/-- The masks are read only as a condition, and comparisons write only VCC. -/
structure LaneLocal (i : Inst) : Prop where
  sources : ∀ o ∈ i.sources, o.isMask = false
  compare : i.comparesToVcc = true

def Wave.vccBit (w : Wave) (L : Lane) : Bool := w.vcc.getLsbD L

def Wave.laneExports (w : Wave) (L : Lane) : List ExportRecord :=
  w.exports.filter (fun r => r.lane = L)

/-- Two waves look the same to lane `L`, apart from its bit of VCC. -/
structure SameLane (L : Lane) (w v : Wave) : Prop where
  sgprs : w.sgprs = v.sgprs
  m0 : w.m0 = v.m0
  vgprs : ∀ n, w.vgprs n L = v.vgprs n L
  live : w.laneLive L = v.laneLive L
  exports : w.laneExports L = v.laneExports L

namespace SameLane

variable {L : Lane} {w v u : Wave}

@[refl] lemma refl (L : Lane) (w : Wave) : SameLane L w w := ⟨rfl,rfl,fun _ => rfl,rfl,rfl⟩

lemma symm (h : SameLane L w v) : SameLane L v w :=
  ⟨h.sgprs.symm,h.m0.symm,fun n => (h.vgprs n).symm,h.live.symm,h.exports.symm⟩

lemma trans (h : SameLane L w v) (h' : SameLane L v u) : SameLane L w u :=
  ⟨h.sgprs.trans h'.sgprs,h.m0.trans h'.m0,fun n => (h.vgprs n).trans (h'.vgprs n),
    h.live.trans h'.live,h.exports.trans h'.exports⟩

lemma sgpr (h : SameLane L w v) (n off : ℕ) : w.sgpr n off = v.sgpr n off := by
  simp only [Wave.sgpr, h.sgprs]

lemma vgpr (h : SameLane L w v) (n off : ℕ) : w.vgpr n L off = v.vgpr n L off := by
  simp only [Wave.vgpr, h.vgprs]

lemma readScalar (h : SameLane L w v) {o : Operand} (ho : o.isMask = false) (off : ℕ) :
    w.readScalar o off = v.readScalar o off := by
  cases o with
  | sgpr n => exact h.sgpr n off
  | special r => cases r <;> simp_all [Operand.isMask, Wave.readScalar, h.m0]
  | _ => rfl

lemma readSrcLane (h : SameLane L w v) {o : Operand} (ho : o.isMask = false) (off : ℕ) :
    w.readSrcLane o L off = v.readSrcLane o L off := by
  cases o with
  | vgpr n => exact h.vgpr n off
  | _ => exact h.readScalar ho off

lemma readSgprU64 (h : SameLane L w v) (base off : ℕ) :
    w.readSgprU64 base off = v.readSgprU64 base off := by
  simp only [Wave.readSgprU64, h.sgpr]

lemma readScalarPair (h : SameLane L w v) {o : Operand} (ho : o.isMask = false) (off : ℕ) :
    w.readScalarPair o off = v.readScalarPair o off := by
  cases o with
  | sgpr n => exact h.readSgprU64 n off
  | special r => cases r <;> simp_all [Operand.isMask, Wave.readScalarPair]
  | _ => rfl

lemma readPredicateBit (h : SameLane L w v) {o : Operand}
    (ho : o.isVcc = true → w.vccBit L = v.vccBit L) (off : ℕ) :
    w.readPredicateBit o L off = v.readPredicateBit o L off := by
  cases o with
  | sgpr n => simp only [Wave.readPredicateBit, h.sgpr]
  | special r => cases r <;> simp_all [Operand.isVcc, Wave.readPredicateBit, Wave.vccBit]
  | _ => rfl

lemma decodeVSharp (h : SameLane L w v) (srsrc off : ℕ) :
    w.decodeVSharp srsrc off = v.decodeVSharp srsrc off := by
  simp only [Wave.decodeVSharp, h.sgpr]

lemma decodeTSharp (h : SameLane L w v) (base off : ℕ) :
    w.decodeTSharp base off = v.decodeTSharp base off := by
  simp only [Wave.decodeTSharp, h.sgpr]

lemma decodeSSharp (h : SameLane L w v) (base off : ℕ) :
    w.decodeSSharp base off = v.decodeSSharp base off := by
  simp only [Wave.decodeSSharp, h.sgpr]

lemma smrdAddr (h : SameLane L w v) (op : SmrdOp) (sbase : ℕ) (imm : Bool) (offset off : ℕ) :
    w.smrdAddr op sbase imm offset off = v.smrdAddr op sbase imm offset off := by
  simp only [Wave.smrdAddr, Wave.smrdBase, Wave.smrdByteOff, h.decodeVSharp, h.readSgprU64, h.sgpr]

lemma mubufSoffset (h : SameLane L w v) {o : Operand} (ho : o.isMask = false) (off : ℕ) :
    mubufSoffset w o off = mubufSoffset v o off := by
  unfold Gcn.mubufSoffset
  split
  · rfl
  · exact h.readScalar ho off

lemma fetchIndex (h : SameLane L w v) {o : Operand} (ho : o.isMask = false) (idxen : Bool)
    (numRecords : BitVec 64) (off : ℕ) :
    w.fetchIndex o idxen numRecords L off = v.fetchIndex o idxen numRecords L off := by
  simp only [Wave.fetchIndex, h.readSrcLane ho]

lemma fetchOffset (h : SameLane L w v) (reg : Option ℕ) (off : ℕ) :
    w.fetchOffset reg L off = v.fetchOffset reg L off := by
  cases reg with
  | none => rfl
  | some n => simp only [Wave.fetchOffset, h.vgpr]

end SameLane

/-- The bounds check of `offen` does not look at the register's contents. -/
lemma offenReg_eq (w v : Wave) (vaddr : Operand) (offen : Bool) (off : ℕ) :
    offenReg w vaddr offen off = offenReg v vaddr offen off := by
  unfold offenReg
  split
  · cases vaddr with
    | vgpr n => by_cases hn : n+1 < numVgprs <;> simp [Wave.vgpr, hn]
    | _ => rfl
  · rfl

/-- Lane `L` sees no difference at all. -/
structure SameView (L : Lane) (w v : Wave) : Prop extends SameLane L w v where
  vcc : w.vccBit L = v.vccBit L

namespace SameView

variable {L : Lane} {w v u : Wave}

@[refl] lemma refl (L : Lane) (w : Wave) : SameView L w w := ⟨SameLane.refl L w,rfl⟩

lemma trans (h : SameView L w v) (h' : SameView L v u) : SameView L w u :=
  ⟨h.toSameLane.trans h'.toSameLane,h.vcc.trans h'.vcc⟩

end SameView

end Unemups4.Gcn
