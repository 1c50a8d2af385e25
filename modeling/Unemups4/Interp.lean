import Unemups4.Alu
import Unemups4.Cfg
import Unemups4.Fallible

/-! The reference interpreter: one wavefront of 64 lanes under an EXEC mask, stepped
over the blocks of the control-flow graph. Every vector instruction is a loop over
the lanes in which each lane first reads and then writes. -/
namespace Unemups4.Gcn

abbrev waveSize : ℕ := 64
def numSgprs : ℕ := 104
def numVgprs : ℕ := 256

abbrev Lane := Fin waveSize
abbrev Mask := BitVec 64

/-- `panicked` stands for a failed `expect` or index; the other constructors are the
source's. -/
inductive InterpError where
  | unsupportedInst (inst : Inst) (offset : ℕ)
  | invalidOperand (operand : Operand) (offset : ℕ) (reason : String)
  | memoryFault (addr : BitVec 64) (size : ℕ) (reason : String)
  | unsupportedTiling (tilingIndex : ℕ) (offset : ℕ)
  | invalidRegister (kind : String) (reg max : ℕ) (offset : ℕ)
  | panicked
  deriving DecidableEq, Repr

/-- Guest memory: a read either faults or returns exactly the bytes asked for. -/
structure Memory where
  readBytes : BitVec 64 → ℕ → Except String (List (BitVec 8))
  length_eq : ∀ addr size bytes, readBytes addr size = .ok bytes → bytes.length = size

/-- The planes a pixel shader interpolates, per attribute and channel. -/
structure PsInputs where
  attrPlanes : List (Fin 4 → Word × Word × Word)

def PsInputs.plane (inputs : PsInputs) (attr chan : ℕ) : Word × Word × Word :=
  (inputs.attrPlanes[attr]?.map (fun a => a (Fin.ofNat 4 chan))).getD (F32.zero,F32.zero,F32.zero)

structure ExportRecord where
  lane : Lane
  target : ExportTarget
  values : Vector Word 4
  deriving DecidableEq

/-- The state of the wavefront, with the exports captured so far. -/
structure Wave where
  sgprs : ℕ → Word
  vgprs : ℕ → Lane → Word
  exec : Mask
  vcc : Mask
  scc : Bool
  m0 : Word
  exports : List ExportRecord

/-- What an instruction may consult besides the wave. -/
structure Env where
  floats : FloatOps
  mem : Memory
  inputs : PsInputs

namespace Wave

def laneLive (w : Wave) (lane : Lane) : Bool := w.exec.getLsbD lane

def sgpr (w : Wave) (n off : ℕ) : Except InterpError Word :=
  if n < numSgprs then .ok (w.sgprs n) else .error (.invalidRegister "sgpr" n numSgprs off)

def setSgpr (w : Wave) (n : ℕ) (v : Word) (off : ℕ) : Except InterpError Wave :=
  if n < numSgprs then .ok { w with sgprs := Function.update w.sgprs n v }
  else .error (.invalidRegister "sgpr" n numSgprs off)

def vgpr (w : Wave) (n : ℕ) (lane : Lane) (off : ℕ) : Except InterpError Word :=
  if n < numVgprs then .ok (w.vgprs n lane) else .error (.invalidRegister "vgpr" n numVgprs off)

def setVgpr (w : Wave) (n : ℕ) (lane : Lane) (v : Word) (off : ℕ) : Except InterpError Wave :=
  if n < numVgprs then
    .ok { w with vgprs := Function.update w.vgprs n (Function.update (w.vgprs n) lane v) }
  else .error (.invalidRegister "vgpr" n numVgprs off)

def readScalar (w : Wave) (op : Operand) (off : ℕ) : Except InterpError Word :=
  match op with
  | .sgpr n => w.sgpr n off
  | .special .m0 => .ok w.m0
  | .special .vccLo => .ok (w.vcc.setWidth 32)
  | .special .vccHi => .ok ((w.vcc >>> 32).setWidth 32)
  | .special .execLo => .ok (w.exec.setWidth 32)
  | .special .execHi => .ok ((w.exec >>> 32).setWidth 32)
  | .special .scc => .ok (if w.scc then 1 else 0)
  | .inlineInt i => .ok (BitVec.ofInt 32 i)
  | .inlineFloat bits => .ok bits
  | .literal v => .ok v
  | other => .error (.invalidOperand other off "not a scalar source")

def readSrcLane (w : Wave) (op : Operand) (lane : Lane) (off : ℕ) : Except InterpError Word :=
  match op with
  | .vgpr n => w.vgpr n lane off
  | _ => w.readScalar op off

def writeVgpr (w : Wave) (vdst : Operand) (lane : Lane) (bits : Word) (off : ℕ) :
    Except InterpError Wave :=
  match vdst with
  | .vgpr n => w.setVgpr n lane bits off
  | other => .error (.invalidOperand other off "not a vector destination")

def readSgprU64 (w : Wave) (base off : ℕ) : Except InterpError (BitVec 64) := do
  let lo ← w.sgpr base off
  let hi ← w.sgpr (base+1) off
  return lo.setWidth 64 ||| (hi.setWidth 64 <<< 32)

def readScalarPair (w : Wave) (op : Operand) (off : ℕ) : Except InterpError (BitVec 64) :=
  match op with
  | .sgpr n => w.readSgprU64 n off
  | .special .execLo => .ok w.exec
  | .special .vccLo => .ok w.vcc
  | other => .error (.invalidOperand other off "not a 64-bit scalar source")

def writeScalarPair (w : Wave) (sdst : Operand) (v : BitVec 64) (off : ℕ) :
    Except InterpError Wave :=
  match sdst with
  | .sgpr n => do
      let w ← w.setSgpr n (v.setWidth 32) off
      w.setSgpr (n+1) ((v >>> 32).setWidth 32) off
  | .special .execLo => .ok { w with exec := v }
  | .special .vccLo => .ok { w with vcc := v }
  | other => .error (.invalidOperand other off "not a 64-bit scalar destination")

def writeSgpr (w : Wave) (sdst : Operand) (v : Word) (off : ℕ) : Except InterpError Wave :=
  match sdst with
  | .sgpr n => w.setSgpr n v off
  | .special .m0 => .ok { w with m0 := v }
  | .special .vccLo =>
      .ok { w with vcc := (w.vcc &&& 0xffffffff00000000#64) ||| v.setWidth 64 }
  | .special .vccHi =>
      .ok { w with vcc := (w.vcc &&& 0x00000000ffffffff#64) ||| (v.setWidth 64 <<< 32) }
  | other => .error (.invalidOperand other off "not a scalar destination")

/-- The register and bit that hold a lane's bit of the mask in the pair at `n`. -/
def predicateHalf (n : ℕ) (lane : Lane) : ℕ × ℕ :=
  if lane.val < 32 then (n,lane.val) else (n+1,lane.val-32)

def writePredicateBit (w : Wave) (dst : Operand) (lane : Lane) (set : Bool) (off : ℕ) :
    Except InterpError Wave :=
  match dst with
  | .special .vccLo | .special .vccHi =>
      let bit : Mask := 1#64 <<< lane.val
      .ok { w with vcc := if set then w.vcc ||| bit else w.vcc &&& ~~~bit }
  | .sgpr n => do
      let (reg,shift) := predicateHalf n lane
      let cur ← w.sgpr reg off
      let bit : Word := 1#32 <<< shift
      w.setSgpr reg (if set then cur ||| bit else cur &&& ~~~bit) off
  | other =>
      .error (.invalidOperand other off "not a predicate (VCC / SGPR-pair) destination")

def readPredicateBit (w : Wave) (src : Operand) (lane : Lane) (off : ℕ) :
    Except InterpError Bool :=
  match src with
  | .special .vccLo | .special .vccHi => .ok (w.vcc.getLsbD lane)
  | .sgpr n => do
      let (reg,shift) := predicateHalf n lane
      let cur ← w.sgpr reg off
      return cur.getLsbD shift
  | other => .error (.invalidOperand other off "not a predicate (VCC / SGPR-pair) source")

end Wave

/-- One write of a lane's share of a vector instruction. -/
inductive LaneWrite where
  | dst (vdst : Operand) (bits : Word)
  | vgpr (n : ℕ) (bits : Word)
  | predicate (dst : Operand) (set : Bool)
  | record (target : ExportTarget) (values : Vector Word 4)

def Wave.write (lane : Lane) (off : ℕ) (w : Wave) : LaneWrite → Except InterpError Wave
  | .dst vdst bits => w.writeVgpr vdst lane bits off
  | .vgpr n bits => w.setVgpr n lane bits off
  | .predicate dst set => w.writePredicateBit dst lane set off
  | .record target values => .ok { w with exports := w.exports ++ [⟨lane,target,values⟩] }

/-- What a vector instruction does at a lane: a live lane reads and writes, a
masked-off one performs the writes of `idle`. -/
structure LaneOp where
  idle : List LaneWrite
  live : Wave → Lane → Except InterpError (List LaneWrite)

def LaneOp.step (op : LaneOp) (off : ℕ) (w : Wave) (lane : Lane) : Except InterpError Wave := do
  let writes ← if w.laneLive lane then op.live w lane else .ok op.idle
  writes.foldlM (Wave.write lane off) w

/-- The `for lane in 0..WAVE_SIZE` loop of a vector instruction. -/
def LaneOp.run (op : LaneOp) (off : ℕ) (w : Wave) : Except InterpError Wave :=
  (List.finRange waveSize).foldlM (op.step off) w

namespace LaneOp

variable (vdst src0 src1 src2 src3 : Operand) (off : ℕ)

def unary (f : Word → Word) : LaneOp :=
  ⟨[],fun w lane => do
    let a ← w.readSrcLane src0 lane off
    return [.dst vdst (f a)]⟩

def binary (f : Word → Word → Word) : LaneOp :=
  ⟨[],fun w lane => do
    let a ← w.readSrcLane src0 lane off
    let b ← w.readSrcLane src1 lane off
    return [.dst vdst (f a b)]⟩

def ternary (f : Word → Word → Word → Word) : LaneOp :=
  ⟨[],fun w lane => do
    let a ← w.readSrcLane src0 lane off
    let b ← w.readSrcLane src1 lane off
    let c ← w.readSrcLane src2 lane off
    return [.dst vdst (f a b c)]⟩

def quaternary (f : Word → Word → Word → Word → Word) : LaneOp :=
  ⟨[],fun w lane => do
    let a ← w.readSrcLane src0 lane off
    let b ← w.readSrcLane src1 lane off
    let c ← w.readSrcLane src2 lane off
    let d ← w.readSrcLane src3 lane off
    return [.dst vdst (f a b c d)]⟩

/-- `v_cndmask`, with the mask that holds the selector. -/
def select (pred : Operand) : LaneOp :=
  ⟨[],fun w lane => do
    let s0 ← w.readSrcLane src0 lane off
    let s1 ← w.readSrcLane src1 lane off
    let pred ← w.readPredicateBit pred lane off
    return [.dst vdst (if pred then s1 else s0)]⟩

/-- A comparison into the mask `pred`; a masked-off lane clears its bit. -/
def compare (pred : Operand) (f : Word → Word → Except InterpError Bool) : LaneOp :=
  ⟨[.predicate pred false],fun w lane => do
    let a ← w.readSrcLane src0 lane off
    let b ← w.readSrcLane src1 lane off
    let r ← f a b
    return [.predicate pred r]⟩

/-- `v_add_i32`: the sum, and the carry in VCC; a masked-off lane clears its bit. -/
def addCarry : LaneOp :=
  ⟨[.predicate (.special .vccLo) false],fun w lane => do
    let a ← w.readSrcLane src0 lane off
    let b ← w.readSrcLane src1 lane off
    return [.predicate (.special .vccLo) (2^32 ≤ a.toNat+b.toNat),.dst vdst (a+b)]⟩

end LaneOp

def execSop1 (op : Sop1Op) (sdst ssrc0 : Operand) (off : ℕ) (w : Wave) :
    Except InterpError Wave :=
  match op with
  | .sMovB32 => do
      let v ← w.readScalar ssrc0 off
      w.writeSgpr sdst v off
  | .sMovB64 | .sWqmB64 => do
      let v ← w.readScalarPair ssrc0 off
      w.writeScalarPair sdst v off
  | _ => .error (.unsupportedInst (.sop1 op sdst ssrc0) off)

/-- The value a supported VOP1 computes from its source. -/
def FloatOps.evalVop1 (F : FloatOps) (op : Vop1Op) (x : Word) : Option Word :=
  match op with
  | .vMovB32 => some x
  | .vCvtF32I32 => some (F.ofI32 x)
  | .vCvtF32U32 => some (F.ofU32 x)
  | .vCvtU32F32 => some (F.toU32 x)
  | .vCvtI32F32 => some (F.toI32 x)
  | .vCvtOffF32I4 => some (F.cvtOffI4 x)
  | .vFractF32 => some (F.fract x)
  | .vFloorF32 => some (F.floor x)
  | .vCeilF32 => some (F.ceil x)
  | .vSinF32 => some (F.sin (F.mul x F32.tau))
  | .vRcpF32 => some (F.div F32.one x)
  | .vSqrtF32 => some (F.sqrt x)
  | .vNop | .other _ => none

def execVop1 (E : Env) (op : Vop1Op) (vdst src0 : Operand) (off : ℕ) : Except InterpError LaneOp :=
  if (E.floats.evalVop1 op 0).isNone then .error (.unsupportedInst (.vop1 op vdst src0) off)
  else .ok (.unary vdst src0 off fun x => (E.floats.evalVop1 op x).getD 0)

def execVop2 (E : Env) (op : Vop2Op) (vdst src0 vsrc1 : Operand) (k : Option Word) (off : ℕ) :
    Except InterpError LaneOp :=
  match op with
  | .vLshlrevB32 =>
      .ok (.binary vdst src0 vsrc1 off fun shift val => val <<< (shift &&& 0x1f#32).toNat)
  | .vLshrrevB32 =>
      .ok (.binary vdst src0 vsrc1 off fun shift val => val >>> (shift &&& 0x1f#32).toNat)
  | .vAndB32 => .ok (.binary vdst src0 vsrc1 off fun a b => a &&& b)
  | .vAddI32 => .ok (.addCarry vdst src0 vsrc1 off)
  | .vCndmaskB32 => .ok (.select vdst src0 vsrc1 off (.special .vccLo))
  | .vCvtPkrtzF16F32 => .ok (.binary vdst src0 vsrc1 off E.floats.pkrtz)
  | .other _ => .error (.unsupportedInst (.vop2 op vdst src0 vsrc1 k) off)
  | _ => .ok (.ternary vdst src0 vsrc1 vdst off fun a b dstOld => E.floats.evalVop2 op a b dstOld k)

def evalF32Compare (F : FloatOps) (op : VopcOp) (a b : Word) (off : ℕ) :
    Except InterpError Bool :=
  match op with
  | .cmp c =>
      match F.compare c a b with
      | some r => .ok r
      | none => .error (.unsupportedInst (.vopc op (.raw 0) (.raw 0)) off)
  | .other _ => .error (.unsupportedInst (.vopc op (.raw 0) (.raw 0)) off)

def execVop3 (E : Env) (op : Vop3Op) (vdst src0 src1 src2 : Operand) (abs neg : BitVec 8)
    (omod : ℕ) (clamp : Bool) (off : ℕ) : Except InterpError LaneOp :=
  let F := E.floats
  match op with
  | .cmp c =>
      if (F.compare c 0 0).isNone then
        .error (.unsupportedInst (.vop3 op vdst src0 src1 src2 abs neg omod clamp) off)
      else .ok (.compare src0 src1 off vdst fun a b =>
        evalF32Compare F (.cmp c) (F.applyMods a abs neg 0) (F.applyMods b abs neg 1) off)
  | .vCndmaskB32 => .ok (.select vdst src0 src1 off src2)
  | .vMadU32U24 => .ok (.ternary vdst src0 src1 src2 off fun a b c =>
      (a &&& 0xffffff#32)*(b &&& 0xffffff#32)+c)
  | .vCvtPkrtzF16F32 => .ok (.binary vdst src0 src1 off fun a b =>
      F.pkrtz (F.applyMods a abs neg 0) (F.applyMods b abs neg 1))
  | .other _ => .error (.unsupportedInst (.vop3 op vdst src0 src1 src2 abs neg omod clamp) off)
  | _ => .ok (.quaternary vdst src0 src1 src2 vdst off fun a b c dstOld =>
      let raw := F.evalVop3 op (F.applyMods a abs neg 0) (F.applyMods b abs neg 1)
        (F.applyMods c abs neg 2) dstOld
      F.applyClamp (F.applyOmod raw omod) clamp)

def execVopc (E : Env) (op : VopcOp) (src0 vsrc1 : Operand) (off : ℕ) :
    Except InterpError LaneOp := do
  let _ ← evalF32Compare E.floats op F32.zero F32.zero off
  return .compare src0 vsrc1 off (.special .vccLo) fun a b => evalF32Compare E.floats op a b off

def Memory.load (mem : Memory) (addr : BitVec 64) (size : ℕ) :
    Except InterpError (List (BitVec 8)) :=
  match mem.readBytes addr size with
  | .ok bytes => .ok bytes
  | .error reason => .error (.memoryFault addr size reason)

def readLeU32 (bytes : List (BitVec 8)) (at_ : ℕ) : Word :=
  (bytes.getD (at_+3) 0) ++ (bytes.getD (at_+2) 0) ++ (bytes.getD (at_+1) 0) ++ (bytes.getD at_ 0)

/-- A decoded 128-bit buffer resource. -/
structure VSharp where
  base : BitVec 64
  stride : BitVec 64
  numRecords : BitVec 64
  nfmt : ℕ
  dfmt : ℕ
  deriving DecidableEq

/-- The buffer resource packed in four descriptor words. -/
def VSharp.ofWords (w0 w1 w2 w3 : Word) : VSharp where
  base := w0.setWidth 64 ||| ((w1 &&& 0xffff#32).setWidth 64 <<< 32)
  stride := ((w1 >>> 16) &&& 0x3fff#32).setWidth 64
  numRecords := w2.setWidth 64
  nfmt := ((w3 >>> 12) &&& 0x7#32).toNat
  dfmt := ((w3 >>> 15) &&& 0xf#32).toNat

def Wave.decodeVSharp (w : Wave) (srsrc off : ℕ) : Except InterpError VSharp := do
  let w0 ← w.sgpr srsrc off
  let w1 ← w.sgpr (srsrc+1) off
  let w2 ← w.sgpr (srsrc+2) off
  let w3 ← w.sgpr (srsrc+3) off
  return VSharp.ofWords w0 w1 w2 w3

/-- The `set_sgpr` calls of a scalar load, lowest register first. -/
def Wave.setSgprs (off : ℕ) : List (ℕ × Word) → Wave → Except InterpError Wave
  | [], w => .ok w
  | (n,v) :: rest, w => do
      let w ← w.setSgpr n v off
      setSgprs off rest w

def Wave.smrdBase (w : Wave) (op : SmrdOp) (sbase off : ℕ) : Except InterpError (BitVec 64) :=
  if op.isBufferLoad then VSharp.base <$> w.decodeVSharp sbase off else w.readSgprU64 sbase off

def Wave.smrdByteOff (w : Wave) (imm : Bool) (offset off : ℕ) : Except InterpError (BitVec 64) :=
  if imm then .ok (BitVec.ofNat 64 (offset*4)) else BitVec.setWidth 64 <$> w.sgpr offset off

/-- The guest address a scalar load reads from. -/
def Wave.smrdAddr (w : Wave) (op : SmrdOp) (sbase : ℕ) (imm : Bool) (offset off : ℕ) :
    Except InterpError (BitVec 64) := do
  let base ← w.smrdBase op sbase off
  let byteOff ← w.smrdByteOff imm offset off
  return base+byteOff

def execSmrd (E : Env) (op : SmrdOp) (sdst : Operand) (sbase : ℕ) (imm : Bool) (offset off : ℕ)
    (w : Wave) : Except InterpError Wave :=
  match op.dstCount with
  | none => .error (.unsupportedInst (.smrd op sdst sbase imm offset) off)
  | some count => do
      let addr ← w.smrdAddr op sbase imm offset off
      let bytes ← E.mem.load addr (count*4)
      match sdst with
      | .sgpr n => w.setSgprs off ((List.range count).map fun i => (n+i,readLeU32 bytes (i*4)))
      | other => .error (.invalidOperand other off "SMRD destination must be an SGPR")

/-- Component `i` of a fetched element, unpacked by the resource's format. -/
def FloatOps.fetchComponent (F : FloatOps) (dfmt nfmt : ℕ) (bytes : List (BitVec 8)) (i : ℕ) :
    Word :=
  match dfmt with
  | 1 | 3 | 10 =>
      F.convertPackedInt ((readLeU32 bytes 0 >>> (i*8)) &&& 0xff#32) 8 nfmt F32.zero
  | 2 | 5 | 12 =>
      let halfU := (readLeU32 bytes (i/2*4) >>> (i%2*16)) &&& 0xffff#32
      F.convertPackedInt halfU 16 nfmt (F.ofHalf (halfU.setWidth 16))
  | _ => readLeU32 bytes (i*4)

/-- The register that holds the per-lane byte offset of an `offen` fetch. -/
def offenReg (w : Wave) (vaddr : Operand) (offen : Bool) (off : ℕ) :
    Except InterpError (Option ℕ) :=
  if offen then
    match vaddr with
    | .vgpr n => do
        let _ ← w.vgpr (n+1) 0 off
        return some (n+1)
    | other =>
        .error (.invalidOperand other off "MUBUF offen requires a VGPR vaddr (offset is vaddr+1)")
  else .ok none

def mubufSoffset (w : Wave) (soffset : Operand) (off : ℕ) : Except InterpError Word :=
  match soffset with
  | .raw 255 => .error (.invalidOperand soffset off "MUBUF soffset field 255 is invalid")
  | other => w.readScalar other off

/-- The register number of an operand that has to be a VGPR. -/
def vectorReg (o : Operand) (reason : String) (off : ℕ) : Except InterpError ℕ :=
  match o with
  | .vgpr n => .ok n
  | other => .error (.invalidOperand other off reason)

/-- An index past the last record is clamped to it. -/
def clampRecord (numRecords index : BitVec 64) : BitVec 64 :=
  if numRecords ≠ 0 ∧ numRecords ≤ index then numRecords-1 else index

/-- The guest address of a fetch. -/
def VSharp.fetchAddr (v : VSharp) (index : BitVec 64) (soff : Word) (offset : ℕ)
    (voffset : BitVec 64) : BitVec 64 :=
  v.base+index*v.stride+soff.setWidth 64+BitVec.ofNat 64 offset+voffset

/-- The record a lane fetches. -/
def Wave.fetchIndex (w : Wave) (vaddr : Operand) (idxen : Bool) (numRecords : BitVec 64)
    (lane : Lane) (off : ℕ) : Except InterpError (BitVec 64) :=
  if idxen then do
    let index ← BitVec.setWidth 64 <$> w.readSrcLane vaddr lane off
    return clampRecord numRecords index
  else .ok 0

def Wave.fetchOffset (w : Wave) (reg : Option ℕ) (lane : Lane) (off : ℕ) :
    Except InterpError (BitVec 64) :=
  match reg with
  | some reg => BitVec.setWidth 64 <$> w.vgpr reg lane off
  | none => .ok 0

def execMubuf (E : Env) (op : MubufOp) (vdata vaddr : Operand) (srsrc : ℕ) (soffset : Operand)
    (offset : ℕ) (idxen offen : Bool) (off : ℕ) (w : Wave) : Except InterpError LaneOp :=
  match op.vdataCount with
  | none =>
      .error (.unsupportedInst (.mubuf op vdata vaddr srsrc soffset offset idxen offen) off)
  | some count => do
      let soff ← mubufSoffset w soffset off
      let v ← w.decodeVSharp srsrc off
      let vdata0 ← vectorReg vdata "MUBUF vdata must be a VGPR" off
      let offReg ← offenReg w vaddr offen off
      return ⟨[],fun w lane => do
        let index ← w.fetchIndex vaddr idxen v.numRecords lane off
        let voffset ← w.fetchOffset offReg lane off
        let bytes ← E.mem.load (v.fetchAddr index soff offset voffset) (count*4)
        return (List.range count).map fun i =>
          .vgpr (vdata0+i) (E.floats.fetchComponent v.dfmt v.nfmt bytes i)⟩

def execVintrp (E : Env) (op : VintrpOp) (vdst vsrc : Operand) (attr chan off : ℕ) :
    Except InterpError LaneOp :=
  let (p0,p1,p2) := E.inputs.plane attr chan
  let F := E.floats
  match op with
  | .vInterpP1F32 => .ok (.unary vdst vsrc off fun bary => F.add p0 (F.mul bary (F.sub p1 p0)))
  | .vInterpP2F32 => .ok (.binary vdst vsrc vdst off fun bary part =>
      F.add part (F.mul bary (F.sub p2 p0)))
  | .vInterpMovF32 => .ok (.unary vdst vsrc off fun _ => p0)
  | .other _ => .error (.unsupportedInst (.vintrp op vdst vsrc attr chan) off)

inductive TileKind where
  | linear
  | thin1d
  | linearAligned
  | macro2d
  deriving DecidableEq, Repr

def tileKind (tilingIndex : ℕ) : TileKind :=
  if tilingIndex = 0 then .linear
  else if tilingIndex ≤ 7 then .thin1d
  else if tilingIndex = 8 then .linearAligned
  else .macro2d

def microTileIndex (x y : ℕ) : ℕ :=
  let bit (v b : ℕ) : ℕ := v/2^b%2
  bit x 0+2*bit y 0+4*bit x 1+8*bit y 1+16*bit x 2+32*bit y 2

def thin1dTexelOffset (x y width bytes : ℕ) : ℕ :=
  ((y/8*((width+7)/8)+x/8)*64+microTileIndex x y)*bytes

def linearAlignedPitchOr (width decodedPitch : ℕ) : ℕ :=
  if decodedPitch ≥ width then decodedPitch else (width+63)/64*64

def linearAlignedTexelOffset (x y pitch bytes : ℕ) : ℕ := (y*pitch+x)*bytes

/-- The fields of a 256-bit image resource that sampling reads. -/
structure TSharp where
  base : BitVec 64
  width : ℕ
  height : ℕ
  tilingIndex : ℕ
  pitch : ℕ
  deriving DecidableEq

def TSharp.ofWords (w0 w1 w2 w3 w4 : Word) : TSharp where
  base := (w0.setWidth 64 <<< 8) ||| ((w1 &&& 0xff#32).setWidth 64 <<< 40)
  width := (w2 &&& 0x3fff#32).toNat+1
  height := ((w2 >>> 14) &&& 0x3fff#32).toNat+1
  tilingIndex := ((w3 >>> 20) &&& 0x1f#32).toNat
  pitch := ((w4 >>> 13) &&& 0x3fff#32).toNat+1

def Wave.decodeTSharp (w : Wave) (base off : ℕ) : Except InterpError TSharp := do
  let w0 ← w.sgpr base off
  let w1 ← w.sgpr (base+1) off
  let w2 ← w.sgpr (base+2) off
  let w3 ← w.sgpr (base+3) off
  let w4 ← w.sgpr (base+4) off
  let _ ← w.sgpr (base+5) off
  let _ ← w.sgpr (base+6) off
  let _ ← w.sgpr (base+7) off
  return TSharp.ofWords w0 w1 w2 w3 w4

/-- The one sampler field the subset honours: bilinear or point filtering. -/
def Wave.decodeSSharp (w : Wave) (base off : ℕ) : Except InterpError Bool := do
  let _ ← w.sgpr base off
  let _ ← w.sgpr (base+1) off
  let w2 ← w.sgpr (base+2) off
  let _ ← w.sgpr (base+3) off
  return w2.getLsbD 20

/-- The byte offset of a texel under the surface's tile mode. -/
def TSharp.texelOffset (t : TSharp) (x y off : ℕ) : Except InterpError ℕ :=
  match tileKind t.tilingIndex with
  | .linear => .ok ((y*t.width+x)*4)
  | .linearAligned => .ok (linearAlignedTexelOffset x y (linearAlignedPitchOr t.width t.pitch) 4)
  | .thin1d => .ok (thin1dTexelOffset x y t.width 4)
  | .macro2d => .error (.unsupportedTiling t.tilingIndex off)

def Env.texel (E : Env) (t : TSharp) (x y : ℤ) (off : ℕ) : Except InterpError (Vector Word 4) := do
  let xx := (x % t.width).toNat
  let yy := (y % t.height).toNat
  let texelOff ← t.texelOffset xx yy off
  let bytes ← E.mem.load (t.base+BitVec.ofNat 64 texelOff) 4
  let channel (i : ℕ) : Word :=
    E.floats.div (E.floats.ofU32 ((bytes.getD i 0).setWidth 32)) F32.maxByte
  return #v[channel 0,channel 1,channel 2,channel 3]

def saturatingSucc (x : ℤ) : ℤ := min (x+1) (2^63-1)

def Env.sampleTexture (E : Env) (t : TSharp) (bilinear : Bool) (u v : Word) (unrm : Bool)
    (off : ℕ) : Except InterpError (Vector Word 4) :=
  let F := E.floats
  if t.width = 0 ∨ t.height = 0 then .error (.memoryFault t.base 0 "T# has zero extent")
  else
    let fx := if unrm then u else F.mul u (F.ofU32 (BitVec.ofNat 32 t.width))
    let fy := if unrm then v else F.mul v (F.ofU32 (BitVec.ofNat 32 t.height))
    if bilinear then do
      let x := F.sub fx F32.half
      let y := F.sub fy F32.half
      let tx := F.sub x (F.floor x)
      let ty := F.sub y (F.floor y)
      let x0 := F.toI64 (F.floor x)
      let y0 := F.toI64 (F.floor y)
      let x1 := saturatingSucc x0
      let y1 := saturatingSucc y0
      let c00 ← E.texel t x0 y0 off
      let c10 ← E.texel t x1 y0 off
      let c01 ← E.texel t x0 y1 off
      let c11 ← E.texel t x1 y1 off
      let lerp (a b s : Word) : Word := F.add a (F.mul (F.sub b a) s)
      return Vector.ofFn fun c => lerp (lerp (c00.get c) (c10.get c) tx)
        (lerp (c01.get c) (c11.get c) tx) ty
    else E.texel t (F.toI64 (F.floor fx)) (F.toI64 (F.floor fy)) off

def execMimg (E : Env) (op : MimgOp) (vdata vaddr : Operand) (srsrc ssamp : ℕ) (dmask : BitVec 8)
    (unrm : Bool) (off : ℕ) (w : Wave) : Except InterpError LaneOp :=
  if op ≠ .imageSample then
    .error (.unsupportedInst (.mimg op vdata vaddr srsrc ssamp dmask unrm) off)
  else do
    let t ← w.decodeTSharp srsrc off
    let bilinear ← w.decodeSSharp ssamp off
    let vdata0 ← vectorReg vdata "MIMG vdata must be a VGPR" off
    let vu ← vectorReg vaddr "MIMG vaddr must be a VGPR" off
    return ⟨[],fun w lane => do
      let u ← w.vgpr vu lane off
      let v ← w.vgpr (vu+1) lane off
      let rgba ← E.sampleTexture t bilinear u v unrm off
      let channels := (List.finRange 4).filter (fun ch : Fin 4 => dmask.getLsbD ch.val)
      return channels.zipIdx.map fun (ch,i) => .vgpr (vdata0+i) (rgba.get ch)⟩

/-- The value of export slot `i`; a disabled slot is zero. -/
def Wave.slot (w : Wave) (srcs : List (Option Operand)) (lane : Lane) (off i : ℕ) :
    Except InterpError Word :=
  match srcs[i]?.join with
  | some src => w.readSrcLane src lane off
  | none => .ok 0

/-- The two channels of a compressed export slot; a disabled slot is two zeros. -/
def Wave.halfSlot (F : FloatOps) (w : Wave) (srcs : List (Option Operand)) (lane : Lane)
    (off i : ℕ) : Except InterpError (Word × Word) :=
  match srcs[i]?.join with
  | some src => do
      let packed ← w.readSrcLane src lane off
      return (F.ofHalf (packed.setWidth 16),F.ofHalf ((packed >>> 16).setWidth 16))
  | none => .ok (F32.zero,F32.zero)

def execExp (E : Env) (target : ExportTarget) (srcs : List (Option Operand)) (compr : Bool)
    (off : ℕ) : LaneOp :=
  if compr then ⟨[],fun w lane => do
    let (r,g) ← w.halfSlot E.floats srcs lane off 0
    let (b,a) ← w.halfSlot E.floats srcs lane off 1
    return [.record target #v[r,g,b,a]]⟩
  else ⟨[],fun w lane => do
    let r ← w.slot srcs lane off 0
    let g ← w.slot srcs lane off 1
    let b ← w.slot srcs lane off 2
    let a ← w.slot srcs lane off 3
    return [.record target #v[r,g,b,a]]⟩

/-- The lane loop of a vector instruction; scalar instructions have none. -/
def laneOp (E : Env) (d : Decoded) (w : Wave) : Option (Except InterpError LaneOp) :=
  let off := d.offsetDwords
  match d.inst with
  | .vop1 op vdst src0 => some (execVop1 E op vdst src0 off)
  | .vop2 op vdst src0 vsrc1 k => some (execVop2 E op vdst src0 vsrc1 k off)
  | .vop3 op vdst src0 src1 src2 abs neg omod clamp =>
      some (execVop3 E op vdst src0 src1 src2 abs neg omod clamp off)
  | .vopc op src0 vsrc1 => some (execVopc E op src0 vsrc1 off)
  | .mubuf op vdata vaddr srsrc soffset offset idxen offen =>
      some (execMubuf E op vdata vaddr srsrc soffset offset idxen offen off w)
  | .vintrp op vdst vsrc attr chan => some (execVintrp E op vdst vsrc attr chan off)
  | .mimg op vdata vaddr srsrc ssamp dmask unrm =>
      some (execMimg E op vdata vaddr srsrc ssamp dmask unrm off w)
  | .exp target srcs _ compr _ => some (.ok (execExp E target srcs compr off))
  | _ => none

def execOne (E : Env) (d : Decoded) (w : Wave) : Except InterpError Wave :=
  match laneOp E d w with
  | some op => do
      let op ← op
      op.run d.offsetDwords w
  | none =>
      match d.inst with
      | .sop1 op sdst ssrc0 => execSop1 op sdst ssrc0 d.offsetDwords w
      | .smrd op sdst sbase imm offset => execSmrd E op sdst sbase imm offset d.offsetDwords w
      | _ => .error (.unsupportedInst d.inst d.offsetDwords)

end Unemups4.Gcn
