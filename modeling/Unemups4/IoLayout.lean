import Mathlib

/-! What a recompiled shader tells the draw path: the descriptors it reads, where each
came from, and the push constants it expects. -/
namespace Unemups4.Gcn

inductive ShaderStage where
  | vertex
  | pixel
  deriving DecidableEq, Repr

/-- Where a descriptor came from: user SGPRs, or a descriptor set an SGPR pair points at. -/
inductive DescriptorSource where
  | inlineVSharp (sgpr : ℕ)
  | setPointer (sgpr descOffset : ℕ)
  deriving DecidableEq, Repr

structure BufferBinding where
  set : ℕ
  binding : ℕ
  strideBytes : ℕ
  components : ℕ
  source : DescriptorSource
  deriving DecidableEq, Repr

structure ConstBufferBinding where
  set : ℕ
  binding : ℕ
  sizeDwords : ℕ
  source : DescriptorSource
  deriving DecidableEq, Repr

structure SamplerBinding where
  set : ℕ
  binding : ℕ
  source : DescriptorSource
  sOffset : ℕ
  deriving DecidableEq, Repr

structure PushConstantField where
  offsetBytes : ℕ
  sizeBytes : ℕ
  stream : ℕ
  deriving DecidableEq, Repr

structure IoLayout where
  stage : ShaderStage
  buffers : List BufferBinding
  constBuffers : List ConstBufferBinding
  samplers : List SamplerBinding
  pushConstants : List PushConstantField
  deriving DecidableEq, Repr

end Unemups4.Gcn
