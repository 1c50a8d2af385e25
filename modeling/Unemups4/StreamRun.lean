import Unemups4.Registers
import Unemups4.RenderedTargets

/-! One submission from its dwords to its draws: the packet loop of the executor over the
register banks, the resources and the guest memory, then the replay of its command list. -/
namespace Unemups4.Gnm
open Gcn

def itEventWriteEop : BitVec 8 := 0x47#8
def itEventWriteEos : BitVec 8 := 0x48#8

/-- `VGT_PRIMITIVE_TYPE` -/
def vgtPrimitiveType : Dword := 0xc242

/-- `DI_PT_RECTLIST` -/
def rectlist : Dword := 0x11

def deriveTopology (s : GpuState) : PrimitiveTopology :=
  if s.banks .uconfig vgtPrimitiveType = some rectlist then .triangleStrip else .triangleList

/-- A rectangle list of three vertices is drawn as a strip of four. -/
def rectlistVertexCount (s : GpuState) (vertexCount : ℕ) : ℕ :=
  if deriveTopology s = .triangleStrip ∧ vertexCount = 3 then 4 else vertexCount

def qword (lo hi : Dword) : ℕ := hi.toNat*2^32+lo.toNat

def indexTypeOf (body : List Dword) : IndexType :=
  if body.getD 0 0 &&& 0x3#32 = 1#32 then .u32 else .u16

/-- `[max_size, base_lo, base_hi, index_count, ..]` -/
def drawIndex2Body : List Dword → Option (ℕ × ℕ × ℕ)
  | maxSize :: lo :: hi :: count :: _ => some (maxSize.toNat,qword lo hi,count.toNat)
  | _ => none

/-- `[_, index_offset, index_count, ..]` -/
def drawIndexOffsetBody : List Dword → Option (ℕ × ℕ)
  | _ :: offset :: count :: _ => some (offset.toNat,count.toNat)
  | _ => none

/-- The bounded range of an acquire, in bytes; the whole memory is no range. -/
def acquireMemRange : List Dword → Option (ℕ × ℕ)
  | cntl :: sizeLo :: sizeHi :: baseLo :: baseHi :: _ :: _ =>
      let size := qword sizeLo (sizeHi &&& 0xff#32)*256
      if cntl = 0 ∨ sizeLo = BitVec.allOnes 32 ∨ size = 0 then none
      else some (qword baseLo (baseHi &&& 0xff#32)*256,size)
  | _ => none

/-- Source, destination and length of a copy from memory to memory. -/
def dmaDataBody : List Dword → Option (ℕ × ℕ × ℕ)
  | _ :: srcLo :: srcHi :: dstLo :: dstHi :: command :: _ =>
      if command.getLsbD 26 ∨ command.getLsbD 27 then none
      else some (qword srcLo srcHi,qword dstLo dstHi,(command &&& 0x1fffff#32).toNat)
  | _ => none

/-- What the walk takes as given: the tools of the executor, what a draw derives from the
registers and the guest memory of its moment besides the shaders that are bound, and what a
label packet does to the memory. -/
structure StreamEnv where
  tools : Toolchain
  inputs : GpuState → (ℕ → UInt8) → (ℕ → ℕ → Bool) → DrawInputs
  label : BitVec 8 → List Dword → (ℕ → UInt8) → ℕ → UInt8

/-- The packets that reach the resources or the index state. -/
def toPacket (s : GpuState) (d : DrawInputs) : Pm4Packet → Option Packet
  | .type3 opcode _ body =>
      if opcode = itDrawIndexAuto then
        some (.drawIndexAuto d (rectlistVertexCount s (body.getD 0 0).toNat))
      else if opcode = itDrawIndex2 then some (.drawIndex2 d (drawIndex2Body body))
      else if opcode = itDrawIndexOffset2 then some (.drawIndexOffset2 d (drawIndexOffsetBody body))
      else if opcode = itIndexType then some (.indexType (indexTypeOf body))
      else if opcode = itIndexBase then some (.indexBase (qword (body.getD 0 0) (body.getD 1 0)))
      else if opcode = itIndexBufferSize then some (.indexBufferSize (body.getD 0 0).toNat)
      else if opcode = itDmaData then (dmaDataBody body).map fun b => .dmaData b.1 b.2.1 b.2.2
      else if opcode = itAcquireMem then (acquireMemRange body).map fun r => .acquireMem r.1 r.2
      else none
  | _ => none

/-- The driver's state during a walk. -/
structure Gpu where
  state : GpuState
  exec : Exec

namespace Gpu

variable (E : StreamEnv) (g : Gpu)

/-- The packets that neither reach the resources nor the index state. -/
def writeLabel : Pm4Packet → Exec
  | .type3 opcode _ body =>
      if opcode = itEventWriteEop ∨ opcode = itEventWriteEos then
        { g.exec with bytes := E.label opcode body g.exec.bytes }
      else g.exec
  | _ => g.exec

/-- What a draw of this moment finds. -/
def inputs : DrawInputs :=
  { E.inputs g.state g.exec.bytes g.exec.readable with bound := g.state.deriveBoundShaders }

/-- One turn of the packet loop. -/
def step (packet : Pm4Packet) : Option Gpu :=
  let exec := match toPacket g.state (g.inputs E) packet with
    | some p => g.exec.handle E.tools p
    | none => some (g.writeLabel E packet)
  exec.map fun exec => ⟨g.state.writePacket packet,exec⟩

def walk (g : Gpu) : List Pm4Packet → Option Gpu
  | [] => some g
  | packet :: packets => (g.step E packet).bind fun g => g.walk packets

/-- What a submission starts from: the drained writes applied, the index state and the
command list empty. -/
def enter (dirty : List (ℕ × ℕ)) : Gpu :=
  { g with exec := { g.exec.applyDirty dirty with index := .initial, cmds := [] } }

end Gpu

/-- A submission after its walk, with the replay of its list. -/
structure Submitted where
  gpu : Gpu
  replay : Replay

namespace Submitted

/-- The host objects the next list starts from. -/
def display (r : Submitted) : Display := r.replay.display.retire

end Submitted

/-- `Executor::run` over a draw buffer and its constant buffer. -/
def Gpu.submit (E : StreamEnv) (g : Gpu) (d : Display) (dirty : List (ℕ × ℕ)) (dcb ccb : List Dword) :
    Option Submitted :=
  ((g.enter dirty).walk E (decode dcb ++ decode ccb)).map fun g =>
    ⟨g,replayCommandList d g.exec.cmds⟩

/-- A draw with what it reads from its buffers and images. -/
structure ExecutedDraw where
  pass : RecordedPass
  contents : List (Option Bytes)
  deriving DecidableEq, Repr

/-- The draws of a list, executed over the host objects at its end. -/
def Replay.draws (r : Replay) : List ExecutedDraw :=
  r.passes.map fun pass => ⟨pass,pass.reads.map r.display.shows⟩

end Unemups4.Gnm
