import Unemups4.IoLayout
import Unemups4.SpirvCfg
import Unemups4.ScalarFlow

/-! The recompiler's record of descriptors. A scalar load notes for each register it fills
which pointer pair and byte offset it came through; a fetch or a sample looks its resource
register up there and declares a binding for the answer. The other instruction families
neither read nor write these tables: what they reject is left to the emission of their code,
and every stream the recompiler accepts is accepted here. -/
namespace Unemups4.Gcn
open Fallible

def psTextureSet : ℕ := 0

/-- The binding of a pixel shader's texture, in the order of first use. -/
def psTextureBinding (index : ℕ) : ℕ := if index = 0 then 1 else 7+index-1

def maxPsTextures : ℕ := 8

def constBufferSet : ℕ := 0

def constBufferBinding : ShaderStage → ℕ
  | .pixel => 6
  | .vertex => 2

def vsBufferSet : ℕ := 0

def vsStreamBinding (stream : ℕ) : ℕ := if stream = 0 then 0 else stream+2

def maxVsStreams : ℕ := 4

def vbElementStride : ℕ := 16

/-- An operand whose value is known when the shader is recompiled. -/
def Operand.isConstant : Operand → Bool
  | .inlineInt _ | .inlineFloat _ | .literal _ => true
  | _ => false

/-- The bindings declared so far, and where the scalar loads put descriptors. -/
structure DescriptorTables where
  stage : ShaderStage
  vsharpSgprs : ℕ → Option (ℕ × ℕ)
  buffers : List BufferBinding
  constBuffers : List ConstBufferBinding
  samplers : List SamplerBinding

namespace DescriptorTables

def new (stage : ShaderStage) : DescriptorTables := ⟨stage,fun _ => none,[],[],[]⟩

variable (t : DescriptorTables)

/-- `ensure_const_buffer`: one constant buffer, grown to the largest offset read. -/
def ensureConstBuffer (sbase sizeDwords off : ℕ) : Except RecompileError DescriptorTables :=
  match t.constBuffers with
  | [] => .ok { t with constBuffers :=
      [⟨constBufferSet,constBufferBinding t.stage,sizeDwords,.inlineVSharp sbase⟩] }
  | cb :: rest =>
      if cb.source ≠ .inlineVSharp sbase then
        .error (.unsupported off "a second distinct constant buffer (SBASE) is not modeled")
      else .ok { t with constBuffers :=
        { cb with sizeDwords := max cb.sizeDwords sizeDwords } :: rest }

def emitSBufferLoad (dst0 sbase : ℕ) (imm : Bool) (offset count off : ℕ) :
    Except RecompileError DescriptorTables :=
  if !imm then .error (.unsupported off "s_buffer_load with an SGPR (non-immediate) offset")
  else if numSgprs ≤ dst0+count-1 then
    .error (.invalidRegister "sgpr" (dst0+count-1) numSgprs off)
  else t.ensureConstBuffer sbase (offset+count) off

/-- A load through a pointer notes the pair and the byte offset for every register it fills,
whether the offset is an immediate or not. -/
def emitSmrd (op : SmrdOp) (sdst : Operand) (sbase : ℕ) (imm : Bool) (offset off : ℕ) :
    Except RecompileError DescriptorTables :=
  let inst := Inst.smrd op sdst sbase imm offset
  match op.dstCount with
  | none => .error (.unsupportedInst inst off)
  | some count =>
      match sdst with
      | .sgpr dst0 =>
          if op.isBufferLoad then t.emitSBufferLoad dst0 sbase imm offset count off
          else if numSgprs < dst0+count then
            .error (.invalidRegister "sgpr" (max dst0 numSgprs) numSgprs off)
          else .ok { t with vsharpSgprs := fun reg =>
            if dst0 ≤ reg ∧ reg < dst0+count then some (sbase,offset*4%2^32) else t.vsharpSgprs reg }
      | other => .error (.invalidOperand inst other off "SMRD destination must be an SGPR")

/-- `ensure_vs_buffer`: a stream per source; past the cap, the last stream stands in. -/
def ensureVsBuffer (components : ℕ) (source : DescriptorSource) : DescriptorTables × ℕ :=
  match t.buffers.findIdx? (·.source = source) with
  | some stream => ({ t with buffers := t.buffers.modify stream fun b =>
      { b with components := max b.components components } },stream)
  | none =>
      let stream := t.buffers.length
      if maxVsStreams ≤ stream then (t,stream-1)
      else ({ t with buffers := t.buffers ++
        [⟨vsBufferSet,vsStreamBinding stream,vbElementStride,components,source⟩] },stream)

/-- The fetch declares the stream of its resource register; the vertex index it needs and the
code of the fetch are not part of the tables. -/
def emitMubuf (op : MubufOp) (vdata vaddr : Operand) (srsrc : ℕ) (soffset : Operand)
    (offset : ℕ) (idxen offen : Bool) (off : ℕ) :
    Except RecompileError (DescriptorTables × DescriptorSource × ℕ) :=
  let inst := Inst.mubuf op vdata vaddr srsrc soffset offset idxen offen
  match op.vdataCount with
  | none => .error (.unsupportedInst inst off)
  | some count =>
      if soffset = .raw 255 then
        .error (.invalidOperand inst soffset off "MUBUF soffset field 255 is invalid")
      else if offen then
        .error (.unsupported off "MUBUF offen not modeled in the recompiler subset")
      else match vdata with
        | .vgpr vdata0 =>
            match t.vsharpSgprs srsrc with
            | none => .error (.unsupported off
                "MUBUF srsrc does not name an SMRD-loaded vertex-buffer descriptor")
            | some (sbase,descOffset) =>
                let r := t.ensureVsBuffer count (.setPointer sbase descOffset)
                if !soffset.isConstant then .error (.unsupported off
                  "MUBUF soffset is a runtime SGPR — not modeled in the fetch subset")
                else if numVgprs < vdata0+count then
                  .error (.invalidRegister "vgpr" (max vdata0 numVgprs) numVgprs off)
                else .ok (r.1,.setPointer sbase descOffset,r.2)
        | other => .error (.invalidOperand inst other off "MUBUF vdata must be a VGPR")

/-- The T# of a sample: loaded through a pointer, or taken from the launch registers. -/
def texSource (srsrc : ℕ) : DescriptorSource :=
  match t.vsharpSgprs srsrc with
  | some (sbase,descOffset) => .setPointer sbase descOffset
  | none => .inlineVSharp srsrc

/-- `ensure_ps_texture`: a binding per pair of T# source and S# register. -/
def ensurePsTexture (source : DescriptorSource) (sOffset off : ℕ) :
    Except RecompileError (DescriptorTables × SamplerBinding) :=
  match t.samplers.find? fun b => b.source = source && b.sOffset = sOffset with
  | some b => .ok (t,b)
  | none =>
      let index := t.samplers.length
      if maxPsTextures ≤ index then .error (.unsupported off
        "PS declares more distinct image_sample descriptors than the set-0 layout reserves")
      else
        let b : SamplerBinding := ⟨psTextureSet,psTextureBinding index,source,sOffset⟩
        .ok ({ t with samplers := t.samplers ++ [b] },b)

def emitMimg (op : MimgOp) (vdata vaddr : Operand) (srsrc ssamp : ℕ) (dmask : BitVec 8)
    (unrm : Bool) (off : ℕ) : Except RecompileError (DescriptorTables × SamplerBinding) :=
  let inst := Inst.mimg op vdata vaddr srsrc ssamp dmask unrm
  if op ≠ .imageSample then .error (.unsupportedInst inst off)
  else if t.stage ≠ .pixel then .error (.shape "image_sample outside a fragment shader")
  else if unrm then
    .error (.unsupported off "image_sample with unnormalized coordinates not modeled")
  else match vdata, vaddr with
    | .vgpr vdata0, .vgpr vu =>
        if numVgprs ≤ vu+1 then .error (.invalidRegister "vgpr" (vu+1) numVgprs off)
        else do
          let r ← t.ensurePsTexture (t.texSource srsrc) ssamp off
          let channels := ((List.range 4).filter fun ch => dmask.getLsbD ch).length
          if numVgprs < vdata0+channels then
            .error (.invalidRegister "vgpr" (max vdata0 numVgprs) numVgprs off)
          else .ok r
    | .vgpr _, other => .error (.invalidOperand inst other off "MIMG vaddr must be a VGPR")
    | other, _ => .error (.invalidOperand inst other off "MIMG vdata must be a VGPR")

/-- The share of `emit_inst` in the tables. -/
def emitInst (d : Decoded) : Except RecompileError DescriptorTables :=
  match d.inst with
  | .smrd op sdst sbase imm offset => t.emitSmrd op sdst sbase imm offset d.offsetDwords
  | .mubuf op vdata vaddr srsrc soffset offset idxen offen =>
      (·.1) <$> t.emitMubuf op vdata vaddr srsrc soffset offset idxen offen d.offsetDwords
  | .mimg op vdata vaddr srsrc ssamp dmask unrm =>
      (·.1) <$> t.emitMimg op vdata vaddr srsrc ssamp dmask unrm d.offsetDwords
  | .sopp .sEndpgm _ | .sopp .sWaitcnt _ | .sopp .sNop _ => .ok t
  | .sop1 .. | .vop1 .. | .vop2 .. | .vop3 .. | .vopc .. | .vintrp .. | .exp .. => .ok t
  | other => .error (.unsupportedInst other d.offsetDwords)

/-- The straight-line loop of `emit`, up to `s_endpgm`. -/
def emit (t : DescriptorTables) : List Decoded → Except RecompileError DescriptorTables
  | [] => .ok t
  | d :: rest => do
      let t ← t.emitInst d
      if isEndpgm d then return t else t.emit rest

end DescriptorTables

end Unemups4.Gcn
