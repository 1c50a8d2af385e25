import Unemups4.ShaderChain

/-! The packet walk of one submission: each draw packet appends the commands of its setup
and its draw to one list, or gives up on the way. A draw packet comes with the shaders that
are bound and with what the registers and the guest memory of its moment resolve to for
them; no draw changes either. -/
namespace Unemups4.Gnm
open Gcn

structure Slot where
  set : ℕ
  binding : ℕ
  deriving DecidableEq, Repr

inductive PrimitiveTopology where
  | triangleList
  | triangleStrip
  deriving DecidableEq, Repr

/-- The register-derived part of a pipeline key. -/
structure PipelineState where
  colorFormat : ColorFormat
  blendEnable : Bool
  blendControl : ℕ
  writeMask : ℕ
  depthEnable : Bool
  depthControl : ℕ
  topology : PrimitiveTopology
  deriving DecidableEq, Repr

structure VertexLayout where
  attributes : List (ℕ × ℕ × ℕ × ℕ)
  bindings : List (ℕ × ℕ)
  deriving DecidableEq, Repr

structure StorageBinding where
  slot : Slot
  stride : ℕ
  deriving DecidableEq, Repr

/-- Two draws with the same key share a pipeline. A shader is named by the hash of where it is
bound from. -/
structure PipelineKey where
  vsHash : UInt64
  psHash : UInt64
  state : PipelineState
  vertexLayout : Option VertexLayout
  storage : Option Slot
  constStorage : Option Slot
  constStorageFragment : Option Slot
  textures : List Slot
  deriving DecidableEq, Repr

/-- What the backend builds a pipeline from. -/
structure HostPipeline where
  vsSpirv : List UInt32
  psSpirv : List UInt32
  key : PipelineKey
  vertexStorage : List StorageBinding
  pushConstants : Option ℕ
  textures : List Slot
  constStorage : Option StorageBinding
  constStorageFragment : Option StorageBinding
  deriving DecidableEq, Repr

inductive TargetKind where
  | videoout
  | offscreen (base size : ℕ)
  deriving DecidableEq, Repr

structure TargetDesc where
  width : ℕ
  height : ℕ
  kind : TargetKind
  deriving DecidableEq, Repr

/-- Bit patterns of the four single-precision fields. -/
structure ViewportRect where
  x : BitVec 32
  y : BitVec 32
  width : BitVec 32
  height : BitVec 32
  deriving DecidableEq, Repr

structure ScissorRect where
  x : ℤ
  y : ℤ
  width : ℕ
  height : ℕ
  deriving DecidableEq, Repr

structure DrawState where
  target : TargetDesc
  pipeline : PipelineState
  viewport : ViewportRect
  scissor : ScissorRect
  deriving DecidableEq, Repr

structure BufferRange where
  addr : ℕ
  size : ℕ
  stride : ℕ
  numRecords : ℕ
  dstSel : ℕ
  format : ℕ
  deriving DecidableEq, Repr

inductive TileKind where
  | linear
  | thin1d
  | linearAligned
  | macro2d
  deriving DecidableEq, Repr

/-- A decoded T# with the sampler its S# selects. -/
structure TextureRange where
  base : ℕ
  byteSpan : ℕ
  width : ℕ
  height : ℕ
  pitch : ℕ
  tile : TileKind
  dfmt : ℕ
  nfmt : ℕ
  sampler : SamplerDesc
  deriving DecidableEq, Repr

inductive IndexType where
  | u16
  | u32
  deriving DecidableEq, Repr

def IndexType.elemSize : IndexType → ℕ
  | u16 => 2
  | u32 => 4

inductive BackendCmd where
  | resource (cmd : ResourceCmd)
  | createPipeline (id : ℕ) (pipeline : HostPipeline)
  | bindPipeline (id : ℕ)
  | bindVertexBuffer (slot id stride : ℕ)
  | bindStorageBuffer (slot : Slot) (id numRecords stride dstSel format pcOffset : ℕ)
  | bindConstBuffer (slot : Slot) (id : ℕ)
  | bindTexture (slot : Slot) (imageId samplerId : ℕ)
  | setRenderTarget (id : ℕ)
  | setViewport (rect : ViewportRect)
  | setScissor (rect : ScissorRect)
  | drawAuto (vertexCount : ℕ)
  | drawIndexed (id indexCount : ℕ) (indexType : IndexType)
  deriving DecidableEq, Repr

/-- What is bound at a draw packet, and what the registers and the guest memory of its moment
resolve to; a field that could not be resolved is `none`. The vertex streams are those that
the resolved vertex shader declares. -/
structure DrawInputs where
  now : ℕ
  bound : BoundShaders
  drawState : Option DrawState
  vertexRanges : HostShader → List BufferRange
  vertexLayout : HostShader → Option (Option VertexLayout)
  constRange : ShaderStage → ConstBufferBinding → Option BufferRange
  texture : SamplerBinding → Option TextureRange

structure IndexState where
  indexType : IndexType
  base : ℕ
  maxSize : ℕ
  deriving DecidableEq, Repr

structure RegisteredRt where
  base : ℕ
  size : ℕ
  desc : TargetDesc
  deriving DecidableEq, Repr

/-- `RenderTargetRegistry::register`: one entry per base. -/
def registerRt (rts : List RegisteredRt) (rt : RegisteredRt) : List RegisteredRt :=
  if rts.any (·.base = rt.base) then rts.map fun r => if r.base = rt.base then rt else r
  else rts ++ [rt]

/-- `RenderTargetRegistry::lookup`: exact base and full containment. -/
def lookupRt (rts : List RegisteredRt) (base size : ℕ) : Option RegisteredRt :=
  rts.find? fun rt => rt.base = base && size ≤ rt.size

inductive TextureSource where
  | plain (t : TextureRange)
  | renderTarget (rt : RegisteredRt) (t : TextureRange)
  deriving DecidableEq, Repr

def TextureSource.sampler : TextureSource → SamplerDesc
  | plain t | renderTarget _ t => t.sampler

/-- The executor of one submission, with the commands appended so far. -/
structure Exec where
  cache : ResourceCache
  shaders : List (ShaderCacheKey × CacheEntry)
  pipelines : List (PipelineKey × ℕ)
  nextPipeline : ℕ
  renderTargets : List RegisteredRt
  index : IndexState
  bytes : ℕ → UInt8
  readable : ℕ → ℕ → Bool
  cmds : List BackendCmd

/-- What the checks of a draw resolved, before anything is bound. -/
structure Resolved where
  vsConst : Option (ConstBufferBinding × BufferRange)
  psConst : Option (ConstBufferBinding × BufferRange)
  textures : List (SamplerBinding × TextureSource)
  vertexLayout : Option VertexLayout

def HostShader.buffers (s : HostShader) : List BufferBinding :=
  match s.io with
  | none => []
  | some io => io.buffers

def HostShader.samplers (s : HostShader) : List SamplerBinding :=
  match s.io with
  | none => []
  | some io => io.samplers

def HostShader.constBuffers (s : HostShader) : List ConstBufferBinding :=
  match s.io with
  | none => []
  | some io => io.constBuffers

namespace DrawInputs

variable (d : DrawInputs)

/-- A stage declares at most one constant buffer, and its range must resolve. -/
def resolveConst (stage : ShaderStage) (s : HostShader) :
    Option (Option (ConstBufferBinding × BufferRange)) :=
  match s.constBuffers with
  | [] => some none
  | [cb] => (d.constRange stage cb).map fun range => some (cb,range)
  | _ => none

/-- A sampled range that an earlier draw rendered into is bound as that target; a plain
macro-tiled texture has no detiler. -/
def resolveTexture (rts : List RegisteredRt) (sb : SamplerBinding) :
    Option (SamplerBinding × TextureSource) :=
  (d.texture sb).bind fun t =>
    match lookupRt rts t.base t.byteSpan with
    | some rt => some (sb,.renderTarget rt t)
    | none => if t.tile = .macro2d then none else some (sb,.plain t)

/-- A vertex shader that fetches through storage buffers has no vertex input. -/
def resolveLayout (vs : HostShader) : Option (Option VertexLayout) :=
  if vs.buffers ≠ [] then some none else d.vertexLayout vs

/-- The checks of `setup_draw` between the target and the pipeline. -/
def resolve (rts : List RegisteredRt) (vs ps : HostShader) : Option Resolved := do
  let vsConst ← d.resolveConst .vertex vs
  let psConst ← d.resolveConst .pixel ps
  let textures ← ps.samplers.mapM (d.resolveTexture rts)
  let vertexLayout ← d.resolveLayout vs
  return ⟨vsConst,psConst,textures,vertexLayout⟩

end DrawInputs

def maxPsTextures : ℕ := 8

/-- The hash of a stage, zero where nothing is bound. -/
def BoundShaders.hash (b : BoundShaders) (stage : ShaderStage) : UInt64 :=
  ((b.get stage).map ShaderRef.shaderHash).getD 0

def pipelineKey (b : BoundShaders) (vs ps : HostShader) (draw : DrawState) (r : Resolved) :
    PipelineKey where
  vsHash := b.hash .vertex
  psHash := b.hash .pixel
  state := draw.pipeline
  vertexLayout := r.vertexLayout
  storage := vs.buffers.head?.map fun b => ⟨b.set,b.binding⟩
  constStorage := r.vsConst.map fun c => ⟨c.1.set,c.1.binding⟩
  constStorageFragment := r.psConst.map fun c => ⟨c.1.set,c.1.binding⟩
  textures := (ps.samplers.take maxPsTextures).map fun sb => ⟨sb.set,sb.binding⟩

def pushConstantEnd (io : IoLayout) : Option ℕ :=
  (io.pushConstants.map fun f => f.offsetBytes+f.sizeBytes).max?

def hostPipeline (b : BoundShaders) (vs ps : HostShader) (draw : DrawState) (r : Resolved) :
    HostPipeline where
  vsSpirv := vs.spirv
  psSpirv := ps.spirv
  key := pipelineKey b vs ps draw r
  vertexStorage := vs.buffers.map fun b => ⟨⟨b.set,b.binding⟩,b.strideBytes⟩
  pushConstants := if vs.buffers ≠ [] then vs.io.bind pushConstantEnd else none
  textures := r.textures.map fun t => ⟨t.1.set,t.1.binding⟩
  constStorage := r.vsConst.map fun c => ⟨⟨c.1.set,c.1.binding⟩,0⟩
  constStorageFragment := r.psConst.map fun c => ⟨⟨c.1.set,c.1.binding⟩,0⟩

namespace Exec

variable (T : Toolchain) (e : Exec)

def read (addr size : ℕ) : Option Bytes :=
  if e.readable addr size then some (bytesAt e.bytes addr size) else none

def emit (cmd : BackendCmd) : Exec := { e with cmds := e.cmds ++ [cmd] }

/-- Take over a cache operation, with its commands appended. -/
def take (r : ℕ × ResourceCache × List ResourceCmd) : ℕ × Exec :=
  (r.1,{ e with cache := r.2.1, cmds := e.cmds ++ r.2.2.map .resource })

def fetch (now : ℕ) (key : ResourceKey) : Option (ℕ × Exec) :=
  (e.cache.get copyPolicy e.read now key).map fun r => e.take (r.1,r.2.1,r.2.2.1)

def fetchTexture (now : ℕ) (key : ResourceKey) (surface : SurfaceLayout) (format : TextureFormat) :
    Option (ℕ × Exec) :=
  (e.cache.getTexture T.detile e.read now key surface format).map fun r =>
    e.take (r.1,r.2.1,r.2.2.1)

def fetchRenderTarget (base size : ℕ) (target : TargetDesc) : Option (ℕ × Exec) :=
  let surface : SurfaceLayout := ⟨.bpp32,target.width,target.height,.linearGeneral,0⟩
  (e.cache.getRenderTarget ⟨base,size,.renderTarget ⟨10,0⟩ surface⟩ surface .r8g8b8a8Unorm).map e.take

def fetchSampler (desc : SamplerDesc) : Option (ℕ × Exec) := (e.cache.getSampler desc).map e.take

def fetchWhiteDummy : Option (ℕ × Exec) := e.cache.getWhiteDummy.map e.take

/-- `register_render_target`: open a pass into the target of an offscreen draw. -/
def registerRenderTarget (target : TargetDesc) : Option Exec :=
  match target.kind with
  | .videoout => some e
  | .offscreen base size =>
      (e.fetchRenderTarget base size target).map fun (id,e) => e.emit (.setRenderTarget id)

/-- Get or mint the pipeline of the key, then bind it. -/
def bindPipeline (pipeline : HostPipeline) : Exec :=
  match e.pipelines.lookup pipeline.key with
  | some id => e.emit (.bindPipeline id)
  | none =>
      let id := e.nextPipeline
      let e := e.emit (.createPipeline id pipeline)
      { e with
        pipelines := (pipeline.key,id) :: e.pipelines
        nextPipeline := id+1 }.emit (.bindPipeline id)

def textureSurface (t : TextureRange) : SurfaceLayout where
  texel := .bpp32
  width := t.width
  height := t.height
  tiling := match t.tile with
    | .linear | .macro2d => .linearGeneral
    | .thin1d => .thin1d
    | .linearAligned => .linearAligned
  pitch := t.pitch

/-- `IMG_NUM_FORMAT_SRGB` -/
def textureFormat (t : TextureRange) : TextureFormat :=
  if t.nfmt = 9 then .r8g8b8a8Srgb else .r8g8b8a8Unorm

/-- A texture whose base cannot be read is replaced by the white dummy. -/
def fetchImage (now : ℕ) : TextureSource → Option (ℕ × Exec)
  | .renderTarget rt _ => e.fetchRenderTarget rt.base rt.size rt.desc
  | .plain t =>
      if (e.read t.base (min t.byteSpan 16)).isNone then e.fetchWhiteDummy
      else e.fetchTexture T now
        ⟨t.base,t.byteSpan,.texture ⟨t.dfmt,t.nfmt⟩ (textureSurface t)⟩ (textureSurface t)
        (textureFormat t)

def bindTexture (now : ℕ) (b : SamplerBinding × TextureSource) : Option Exec :=
  (e.fetchImage T now b.2).bind fun (imageId,e) =>
    (e.fetchSampler b.2.sampler).map fun (samplerId,e) =>
      e.emit (.bindTexture ⟨b.1.set,b.1.binding⟩ imageId samplerId)

def bindConst (now : ℕ) (c : ConstBufferBinding × BufferRange) : Option Exec :=
  (e.fetch now ⟨c.2.addr,c.2.size,.constBuf⟩).map fun (id,e) =>
    e.emit (.bindConstBuffer ⟨c.1.set,c.1.binding⟩ id)

def bindStorage (now : ℕ) (b : ℕ × BufferBinding × BufferRange) : Option Exec :=
  let (stream,binding,range) := b
  (e.fetch now ⟨range.addr,range.size,.vertexBuf⟩).map fun (id,e) =>
    e.emit (.bindStorageBuffer ⟨binding.set,binding.binding⟩ id range.numRecords
      (if range.stride ≠ 0 then range.stride else binding.strideBytes) range.dstSel range.format
      (stream*16))

def bindVertex (now : ℕ) (b : ℕ × BufferRange) : Option Exec :=
  (e.fetch now ⟨b.2.addr,b.2.size,.vertexBuf⟩).map fun (id,e) =>
    e.emit (.bindVertexBuffer b.1 id b.2.stride)

/-- Bind one thing after another. -/
def bindAll {α : Type} (bind : Exec → α → Option Exec) : Exec → List α → Option Exec
  | e, [] => some e
  | e, a :: as => (bind e a).bind fun e => bindAll bind e as

/-- Bind the vertex streams; `none` inside is the late give-up on too few ranges. -/
def bindBuffers (d : DrawInputs) (vs : HostShader) : Option (Exec × Bool) :=
  if vs.buffers ≠ [] then
    if (d.vertexRanges vs).length < vs.buffers.length then some (e,false)
    else
      let streams := (vs.buffers.zip (d.vertexRanges vs)).zipIdx.map fun (b,i) => (i,b.1,b.2)
      (bindAll (fun e => e.bindStorage d.now) e streams).map fun e => (e,true)
  else
    let slots := (d.vertexRanges vs).zipIdx.map fun (r,i) => (i,r)
    (bindAll (fun e => e.bindVertex d.now) e slots).map fun e => (e,true)

/-- Commit the target of a draw that passed every check. -/
def commitTarget (target : TargetDesc) : Exec :=
  match target.kind with
  | .videoout => e
  | .offscreen base size => { e with renderTargets := registerRt e.renderTargets ⟨base,size,target⟩ }

/-- Everything from the pipeline on. -/
def bindDraw (d : DrawInputs) (vs ps : HostShader) (draw : DrawState) (r : Resolved) :
    Option (Exec × Bool) := do
  let e := e.bindPipeline (hostPipeline d.bound vs ps draw r)
  let e ← bindAll (fun e => e.bindTexture T d.now) e r.textures
  let e ← bindAll (fun e => e.bindConst d.now) e (r.vsConst.toList ++ r.psConst.toList)
  let (e,bound) ← e.bindBuffers d vs
  if bound then
    let e := e.commitTarget draw.target
    return ((e.emit (.setViewport draw.viewport)).emit (.setScissor draw.scissor),true)
  else return (e,false)

/-- The provider of recompiled shaders over the memory of the moment. -/
def provider : GcnShaderProvider := ⟨e.shaders,e.bytes,e.readable,[],[]⟩

/-- The host shaders of a draw, with whatever was recompiled for them cached. -/
def resolveShaders (b : BoundShaders) : Option (HostShader × HostShader) × Exec :=
  let r := T.resolvePair e.provider b
  (r.1,{ e with shaders := r.2.cache })

/-- `setup_draw`: whether the draw is ready, with the commands appended either way. -/
def setupDraw (d : DrawInputs) : Option (Exec × Bool) :=
  let (shaders,e) := e.resolveShaders T d.bound
  match shaders with
  | none => some (e,false)
  | some (vs,ps) =>
      match d.drawState with
      | none => some (e,false)
      | some draw =>
          (e.registerRenderTarget draw.target).bind fun e =>
            match d.resolve e.renderTargets vs ps with
            | none => some (e,false)
            | some r => e.bindDraw T d vs ps draw r

/-- The pipeline that a draw comes to, if it gets so far. -/
def wants (d : DrawInputs) : Option HostPipeline := do
  let (vs,ps) ← (e.resolveShaders T d.bound).1
  let draw ← d.drawState
  let r ← d.resolve e.renderTargets vs ps
  return hostPipeline d.bound vs ps draw r

/-- The drained writes drop the shaders and mark the resources that they touch. -/
def applyDirty (dirty : List (ℕ × ℕ)) : Exec :=
  { e with
    cache := e.cache.applyDirty dirty
    shaders := e.shaders.filter fun s =>
      !dirty.any fun w => codeOverlaps s.2.codeStart s.2.codeEnd w.1 w.2 }

end Exec

def saturatingMul (a b : ℕ) : ℕ := min (a*b) u64Max

/-- A packet of the walk, with the fields its handler reads; a body that is too short is
`none`. -/
inductive Packet where
  | drawIndexAuto (d : DrawInputs) (vertexCount : ℕ)
  | drawIndex2 (d : DrawInputs) (body : Option (ℕ × ℕ × ℕ))
  | drawIndexOffset2 (d : DrawInputs) (body : Option (ℕ × ℕ))
  | indexType (t : IndexType)
  | indexBase (base : ℕ)
  | indexBufferSize (maxSize : ℕ)
  | dmaData (src dst len : ℕ)
  | acquireMem (base size : ℕ)

/-- The draw of a packet that is long enough for one. -/
def Packet.inputs : Packet → Option DrawInputs
  | .drawIndexAuto d _ | .drawIndex2 d (some _) | .drawIndexOffset2 d (some _) => some d
  | _ => none

/-- What a draw packet asks for beyond its setup. -/
inductive DrawShape where
  | auto (count : ℕ)
  | indexed (base count : ℕ)
  deriving DecidableEq, Repr

/-- The index buffer that the draw would read is null or empty. -/
def DrawShape.isVoid (t : IndexType) : DrawShape → Bool
  | auto _ => false
  | indexed base count => base = 0 ∨ saturatingMul t.elemSize count = 0

def Packet.draw (index : IndexState) : Packet → Option (DrawInputs × DrawShape)
  | .drawIndexAuto d count => some (d,.auto count)
  | .drawIndex2 d (some (maxSize,packetBase,packetCount)) =>
      some (d,.indexed (if packetBase ≠ 0 then packetBase else index.base)
        (if maxSize ≠ 0 then min packetCount maxSize else packetCount))
  | .drawIndexOffset2 d (some (offset,packetCount)) =>
      some (d,.indexed
        (if index.base = 0 then 0
          else saturatingAdd index.base (saturatingMul index.indexType.elemSize offset))
        (if index.maxSize = 0 then packetCount else min packetCount (index.maxSize-offset)))
  | _ => none

namespace Exec

variable (T : Toolchain) (e : Exec)

/-- The draw over an index buffer, given up on when there is none. -/
def drawIndexed (now base count : ℕ) (t : IndexType) : Option Exec :=
  if base = 0 ∨ saturatingMul t.elemSize count = 0 then some e
  else (e.fetch now ⟨base,saturatingMul t.elemSize count,.indexBuf⟩).map fun (id,e) =>
    e.emit (.drawIndexed id count t)

def dispatchIndexed (d : DrawInputs) (base count : ℕ) : Option Exec :=
  (e.setupDraw T d).bind fun (e',ready) =>
    if ready then e'.drawIndexed d.now base count e.index.indexType else some e'

/-- `IT_DMA_DATA` from memory to memory, when both ends can be accessed. -/
def dmaData (src dst len : ℕ) : Exec :=
  if src = 0 ∨ dst = 0 ∨ len = 0 then e
  else match e.read src len with
    | none => e
    | some data =>
        if e.readable dst len then { e with bytes := Machine.writeAt e.bytes dst data } else e

def handle : Packet → Option Exec
  | .drawIndexAuto d count =>
      (e.setupDraw T d).map fun (e,ready) => if ready then e.emit (.drawAuto count) else e
  | .drawIndex2 d body => match body with
      | none => some e
      | some (maxSize,packetBase,packetCount) =>
          e.dispatchIndexed T d (if packetBase ≠ 0 then packetBase else e.index.base)
            (if maxSize ≠ 0 then min packetCount maxSize else packetCount)
  | .drawIndexOffset2 d body => match body with
      | none => some e
      | some (offset,packetCount) =>
          e.dispatchIndexed T d
            (if e.index.base = 0 then 0
              else saturatingAdd e.index.base (saturatingMul e.index.indexType.elemSize offset))
            (if e.index.maxSize = 0 then packetCount
              else min packetCount (e.index.maxSize-offset))
  | .indexType t => some { e with index.indexType := t }
  | .indexBase base => some { e with index.base := base }
  | .indexBufferSize maxSize => some { e with index.maxSize := maxSize }
  | .dmaData src dst len => some (e.dmaData src dst len)
  | .acquireMem base size =>
      some (if size = 0 then e else { e with cache := e.cache.invalidateRange base size })

/-- The packet loop of `run`. -/
def walk (e : Exec) : List Packet → Option Exec
  | [] => some e
  | p :: ps => (e.handle T p).bind fun e => e.walk ps

/-- The rest of a draw that is ready. -/
def issue (now : ℕ) (t : IndexType) : DrawShape → Option Exec
  | .auto count => some (e.emit (.drawAuto count))
  | .indexed base count => e.drawIndexed now base count t

variable {T e}

lemma handle_draw {p : Packet} {d : DrawInputs} {shape : DrawShape}
    (hp : p.draw e.index = some (d,shape)) :
    e.handle T p = (e.setupDraw T d).bind fun (e₁,ready) =>
      if ready then e₁.issue d.now e.index.indexType shape else some e₁ := by
  cases p with
  | drawIndexAuto d' count =>
    cases hp
    simp only [Exec.handle, Exec.issue]
    cases e.setupDraw T d with
    | none => rfl
    | some x =>
      obtain ⟨e₁,ready⟩ := x
      cases ready <;> rfl
  | drawIndex2 d' body | drawIndexOffset2 d' body =>
    cases body with
    | none => cases hp
    | some b =>
      cases hp
      rfl
  | _ => cases hp

end Exec

end Unemups4.Gnm
