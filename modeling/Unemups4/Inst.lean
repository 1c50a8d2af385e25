import Mathlib

/-! Decoded GCN instructions: operands, one opcode enumeration per encoding class,
and the `Inst` variants the control-flow builder and both executors match on.
An opcode byte outside a class's table is kept as `other`. -/
namespace Unemups4.Gcn

abbrev Word := BitVec 32

/-- The named special scalar registers. -/
inductive SpecialReg where
  | vccLo
  | vccHi
  | m0
  | execLo
  | execHi
  | scc
  deriving DecidableEq, Repr

/-- One 9-bit source field or a destination register. An inline float is kept as
its f32 bit pattern. -/
inductive Operand where
  | sgpr (n : ℕ)
  | vgpr (n : ℕ)
  | special (r : SpecialReg)
  | inlineInt (i : ℤ)
  | inlineFloat (bits : Word)
  | literal (w : Word)
  | raw (field : ℕ)
  deriving DecidableEq, Repr

inductive Sop1Op where
  | sMovB32
  | sMovB64
  | sWqmB64
  | sSetpcB64
  | sSwappcB64
  | other (code : ℕ)
  deriving DecidableEq, Repr

inductive SoppOp where
  | sNop
  | sEndpgm
  | sBranch
  | sCbranchScc0
  | sCbranchScc1
  | sCbranchVccz
  | sCbranchVccnz
  | sCbranchExecz
  | sCbranchExecnz
  | sBarrier
  | sWaitcnt
  | other (code : ℕ)
  deriving DecidableEq, Repr

inductive SmrdOp where
  | sLoadDword
  | sLoadDwordx2
  | sLoadDwordx4
  | sLoadDwordx8
  | sLoadDwordx16
  | sBufferLoadDword
  | sBufferLoadDwordx2
  | sBufferLoadDwordx4
  | sBufferLoadDwordx8
  | sBufferLoadDwordx16
  | other (code : ℕ)
  deriving DecidableEq, Repr

namespace SmrdOp

def dstCount : SmrdOp → Option ℕ
  | sLoadDword | sBufferLoadDword => some 1
  | sLoadDwordx2 | sBufferLoadDwordx2 => some 2
  | sLoadDwordx4 | sBufferLoadDwordx4 => some 4
  | sLoadDwordx8 | sBufferLoadDwordx8 => some 8
  | sLoadDwordx16 | sBufferLoadDwordx16 => some 16
  | other _ => none

def isBufferLoad : SmrdOp → Bool
  | sBufferLoadDword | sBufferLoadDwordx2 | sBufferLoadDwordx4
  | sBufferLoadDwordx8 | sBufferLoadDwordx16 => true
  | _ => false

end SmrdOp

/-- The comparison of a `v_cmp`; VOPC and the VOP3 encoding share it. -/
inductive CmpOp where
  | ltF32 | eqF32 | leF32 | gtF32 | geF32
  | ltI32 | eqI32 | leI32 | gtI32 | neI32 | geI32
  | ltU32 | eqU32 | leU32 | gtU32 | neU32 | geU32
  deriving DecidableEq, Repr

inductive VopcOp where
  | cmp (c : CmpOp)
  | other (code : ℕ)
  deriving DecidableEq, Repr

inductive Vop1Op where
  | vNop
  | vMovB32
  | vCvtF32I32
  | vCvtF32U32
  | vCvtU32F32
  | vCvtI32F32
  | vCvtOffF32I4
  | vFractF32
  | vCeilF32
  | vFloorF32
  | vRcpF32
  | vSqrtF32
  | vSinF32
  | other (code : ℕ)
  deriving DecidableEq, Repr

inductive Vop2Op where
  | vCndmaskB32
  | vAddF32
  | vSubF32
  | vSubrevF32
  | vMulF32
  | vMinF32
  | vMaxF32
  | vLshrrevB32
  | vLshlrevB32
  | vAndB32
  | vMacF32
  | vMadmkF32
  | vMadakF32
  | vAddI32
  | vCvtPkrtzF16F32
  | other (code : ℕ)
  deriving DecidableEq, Repr

inductive Vop3Op where
  | cmp (c : CmpOp)
  | vCndmaskB32
  | vMulF32
  | vCvtPkrtzF16F32
  | vMacF32
  | vMadF32
  | vMadU32U24
  | vFmaF32
  | vMed3F32
  | vFractF32
  | other (code : ℕ)
  deriving DecidableEq, Repr

inductive MimgOp where
  | imageLoad
  | imageStore
  | imageSample
  | other (code : ℕ)
  deriving DecidableEq, Repr

inductive VintrpOp where
  | vInterpP1F32
  | vInterpP2F32
  | vInterpMovF32
  | other (code : ℕ)
  deriving DecidableEq, Repr

inductive MubufOp where
  | bufferLoadFormatX
  | bufferLoadFormatXy
  | bufferLoadFormatXyz
  | bufferLoadFormatXyzw
  | bufferStoreFormatX
  | bufferLoadDword
  | bufferStoreDword
  | other (code : ℕ)
  deriving DecidableEq, Repr

def MubufOp.vdataCount : MubufOp → Option ℕ
  | bufferLoadFormatX | bufferStoreFormatX | bufferLoadDword | bufferStoreDword => some 1
  | bufferLoadFormatXy => some 2
  | bufferLoadFormatXyz => some 3
  | bufferLoadFormatXyzw => some 4
  | other _ => none

inductive ExportTarget where
  | mrt (n : ℕ)
  | mrtZ
  | null
  | pos (n : ℕ)
  | param (n : ℕ)
  | raw (n : ℕ)
  deriving DecidableEq, Repr

/-- One decoded instruction, grouped by encoding class. -/
inductive Inst where
  | sop1 (op : Sop1Op) (sdst ssrc0 : Operand)
  | sop2 (op : ℕ) (sdst ssrc0 ssrc1 : Operand)
  | sopk (op : ℕ) (sdst : Operand) (simm16 : BitVec 16)
  | sopc (op : ℕ) (ssrc0 ssrc1 : Operand)
  | sopp (op : SoppOp) (simm16 : BitVec 16)
  | smrd (op : SmrdOp) (sdst : Operand) (sbase : ℕ) (imm : Bool) (offset : ℕ)
  | vop1 (op : Vop1Op) (vdst src0 : Operand)
  | vop2 (op : Vop2Op) (vdst src0 vsrc1 : Operand) (k : Option Word)
  | vop3 (op : Vop3Op) (vdst src0 src1 src2 : Operand) (abs neg : BitVec 8) (omod : ℕ)
      (clamp : Bool)
  | vopc (op : VopcOp) (src0 vsrc1 : Operand)
  | vintrp (op : VintrpOp) (vdst vsrc : Operand) (attr chan : ℕ)
  | mubuf (op : MubufOp) (vdata vaddr : Operand) (srsrc : ℕ) (soffset : Operand)
      (offset : ℕ) (idxen offen : Bool)
  | mimg (op : MimgOp) (vdata vaddr : Operand) (srsrc ssamp : ℕ) (dmask : BitVec 8)
      (unrm : Bool)
  | exp (target : ExportTarget) (srcs : List (Option Operand)) (done compr vm : Bool)
  | unknown (raw : Word) (rawWords : List Word)
  deriving DecidableEq, Repr

/-- An instruction with its length and its position in the stream, both in dwords. -/
structure Decoded where
  inst : Inst
  sizeDwords : ℕ
  offsetDwords : ℕ
  deriving DecidableEq, Repr

/-- Each instruction starts where the one before it ends. -/
def Contiguous : List Decoded → Prop
  | [] => True
  | [d] => 1 ≤ d.sizeDwords
  | d :: e :: rest =>
      1 ≤ d.sizeDwords ∧ e.offsetDwords = d.offsetDwords+d.sizeDwords ∧ Contiguous (e :: rest)

def decideContiguous : (s : List Decoded) → Decidable (Contiguous s)
  | [] => isTrue trivial
  | [d] => inferInstanceAs (Decidable (1 ≤ d.sizeDwords))
  | d :: e :: rest =>
      have := decideContiguous (e :: rest)
      inferInstanceAs (Decidable (1 ≤ d.sizeDwords ∧
        e.offsetDwords = d.offsetDwords+d.sizeDwords ∧ Contiguous (e :: rest)))

instance : DecidablePred Contiguous := decideContiguous

/-- A stream as the decoder lays it out: contiguous, with 32-bit offsets. -/
structure Stream where
  insts : List Decoded
  contiguous : Contiguous insts
  bounded : ∀ d ∈ insts, d.offsetDwords < 2^32

end Unemups4.Gcn
