import Unemups4.Pm4
import Unemups4.ShaderChain

/-! The shadow register file: four sparse banks that the `SET_*_REG` packets of a walk write,
and the pair of shaders a draw derives from them. -/
namespace Unemups4.Gnm
open Gcn

/-- The last value written to each register. -/
abbrev RegFile := Dword → Option Dword

namespace RegFile

def write (bank : RegFile) (start : Dword) : List Dword → RegFile
  | [] => bank
  | value :: values => write (Function.update bank start (some value)) (start+1) values

end RegFile

inductive RegBank where
  | config
  | context
  | sh
  | uconfig
  deriving DecidableEq, Repr

def RegBank.base : RegBank → Dword
  | config => 0x2000
  | context => 0xa000
  | sh => 0x2c00
  | uconfig => 0xc000

def itClearState : BitVec 8 := 0x12#8
def itIndexBufferSize : BitVec 8 := 0x13#8
def itIndexBase : BitVec 8 := 0x26#8
def itDrawIndex2 : BitVec 8 := 0x27#8
def itIndexType : BitVec 8 := 0x2a#8
def itDrawIndexAuto : BitVec 8 := 0x2d#8
def itDrawIndexOffset2 : BitVec 8 := 0x35#8
def itDmaData : BitVec 8 := 0x50#8
def itAcquireMem : BitVec 8 := 0x58#8

/-- The opcode of the packet that writes a bank. -/
def RegBank.opcode : RegBank → BitVec 8
  | config => 0x68#8
  | context => 0x69#8
  | sh => 0x76#8
  | uconfig => 0x79#8

/-- `set_reg_base` -/
def setRegBank (opcode : BitVec 8) : Option RegBank :=
  [RegBank.config,.context,.sh,.uconfig].find? (·.opcode = opcode)

/-- The register banks and the embedded binds; the registry of targets is kept with the
resources. -/
structure GpuState where
  banks : RegBank → RegFile
  shaders : BoundShaders

/-- The registers that name the program of a stage. -/
def pgmLo : ShaderStage → Dword
  | .pixel => 0x2c08
  | .vertex => 0x2c48

def pgmHi : ShaderStage → Dword
  | .pixel => 0x2c09
  | .vertex => 0x2c49

def pgmRsrc1 : ShaderStage → Dword
  | .pixel => 0x2c0a
  | .vertex => 0x2c4a

/-- `SPI_SHADER_USER_DATA_VS_0` -/
def userDataVs0 : Dword := 0x2c4c

/-- `SPI_PS_INPUT_CNTL_0` -/
def psInputCntl0 : Dword := 0xa191

def pgmAddr (lo hi : Dword) : ℕ := (hi.toNat*2^32+lo.toNat)*2^8 % 2^64

namespace GpuState

variable (s : GpuState)

def applySetReg (bank : RegBank) : List Dword → GpuState
  | [] => s
  | offset :: values => { s with
      banks := Function.update s.banks bank ((s.banks bank).write (bank.base+offset) values) }

/-- The embedded binds outlive a clear. -/
def clearRegs : GpuState := { s with banks := fun _ _ => none }

def bindEmbeddedShader (stage : ShaderStage) (id : ℕ) : GpuState :=
  { s with shaders := s.shaders.set stage (.embedded stage id) }

def unbindEmbeddedShader (stage : ShaderStage) : GpuState :=
  { s with shaders := s.shaders.clear stage }

/-- The pointer a vertex shader finds in its first user SGPR pair. -/
def fetchAddr : ShaderStage → Option ℕ
  | .pixel => none
  | .vertex =>
      match s.banks .sh userDataVs0, s.banks .sh (userDataVs0+1) with
      | some lo, some hi =>
          let ptr := hi.toNat*2^32+lo.toNat
          if ptr = 0 then none else some ptr
      | _, _ => none

/-- The parameter each pixel attribute reads; the slot's own number where none was set. -/
def psInputMap : ShaderStage → List UInt8
  | .vertex => (List.range ShaderRef.psInputSlots).map (·.toUInt8)
  | .pixel => (List.range ShaderRef.psInputSlots).map fun n =>
      match s.banks .context (psInputCntl0+BitVec.ofNat 32 n) with
      | some v => v.toNat.toUInt8 &&& 0x1f
      | none => n.toUInt8 &&& 0x1f

/-- The program of a stage as its registers name it; half an address names none. -/
def gcnRefFromRegs (stage : ShaderStage) : Option ShaderRef := do
  let lo ← s.banks .sh (pgmLo stage)
  let hi ← s.banks .sh (pgmHi stage)
  return .gcnBinary ⟨pgmAddr lo hi,s.fetchAddr stage,s.psInputMap stage⟩

/-- An embedded bind wins over the registers of its stage. -/
def deriveStage (stage : ShaderStage) : Option ShaderRef :=
  match s.shaders.get stage with
  | some (.embedded st id) => some (.embedded st id)
  | other => s.gcnRefFromRegs stage <|> other

def deriveBoundShaders : BoundShaders := ⟨s.deriveStage .vertex,s.deriveStage .pixel⟩

/-- The packets that change the register banks. -/
def writePacket : Pm4Packet → GpuState
  | .type3 opcode _ body =>
      match setRegBank opcode with
      | some bank => s.applySetReg bank body
      | none => if opcode = itClearState then s.clearRegs else s
  | _ => s

end GpuState

def Pm4Packet.isDraw : Pm4Packet → Bool
  | .type3 opcode _ _ =>
      opcode = itDrawIndexAuto || opcode = itDrawIndex2 || opcode = itDrawIndexOffset2
  | _ => false

/-- The packet loop of a walk: the registers at its end, and the shaders each draw derives. -/
def GpuState.execute (s : GpuState) : List Pm4Packet → GpuState × List BoundShaders
  | [] => (s,[])
  | packet :: packets =>
      let r := (s.writePacket packet).execute packets
      (r.1,if packet.isDraw then s.deriveBoundShaders :: r.2 else r.2)

lemma GpuState.execute_append (s : GpuState) (ps qs : List Pm4Packet) :
    s.execute (ps ++ qs) = (((s.execute ps).1.execute qs).1,
      (s.execute ps).2 ++ ((s.execute ps).1.execute qs).2) := by
  induction ps generalizing s with
  | nil => rfl
  | cons packet ps ih =>
    simp only [List.cons_append, GpuState.execute, ih]
    split_ifs <;> rfl

end Unemups4.Gnm
