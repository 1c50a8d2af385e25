import Unemups4.DecimalText
import Unemups4.Readback
import Unemups4.RegisterDeltas
import Unemups4.SnapshotFiles
import Unemups4.VertexFetch

/-! The records of a frame's draws, and the file that a snapshot writes of them. -/
namespace Unemups4.Gnm.Records
open Decimal Deltas
open Dump (ShaderDumpRef)

section Numbers

/-- `{:#x}` -/
def hex (n : ℕ) : String := "0x" ++ .ofList (Nat.toDigits 16 n)

/-- Digits of the base 16, with zeros in front up to so many. -/
def padded (width n : ℕ) : List Char :=
  List.replicate (width-(Nat.toDigits 16 n).length) '0' ++ Nat.toDigits 16 n

/-- `{:#010x}` for eight digits, `{:#018x}` for sixteen. -/
def hexPadded (width n : ℕ) : String := "0x" ++ .ofList (padded width n)

def hexDword (n : BitVec 32) : String := hexPadded 8 n.toNat

end Numbers

section Debug

/-- The name of `DataFormat::from_bits`. -/
def dataFormatDebug (dfmt : ℕ) : String :=
  match dfmt with
  | 0 => "Invalid"
  | 1 => "Format8"
  | 2 => "Format16"
  | 3 => "Format8_8"
  | 4 => "Format32"
  | 5 => "Format16_16"
  | 10 => "Format8_8_8_8"
  | 11 => "Format32_32"
  | 12 => "Format16_16_16_16"
  | 13 => "Format32_32_32"
  | 14 => "Format32_32_32_32"
  | other => "Other(" ++ toString other ++ ")"

/-- The name of `NumFormat::from_bits`. -/
def numFormatDebug (nfmt : ℕ) : String :=
  match nfmt with
  | 0 => "Unorm"
  | 1 => "Snorm"
  | 4 => "Uint"
  | 5 => "Sint"
  | 7 => "Float"
  | other => "Other(" ++ toString other ++ ")"

def tileKindDebug : Gcn.TileKind → String
  | .linear => "Linear"
  | .thin1d => "Thin1d"
  | .linearAligned => "LinearAligned"
  | .macro2d => "Macro2d"

def addressModeDebug : SamplerAddressMode → String
  | .repeating => "Repeat"
  | .mirrorRepeat => "MirrorRepeat"
  | .clampToEdge => "ClampToEdge"

def filterDebug : SamplerFilter → String
  | .nearest => "Nearest"
  | .linear => "Linear"

def colorFormatDebug : ColorFormat → String
  | .b8g8r8a8Unorm => "B8G8R8A8Unorm"
  | .r8g8b8a8Unorm => "R8G8B8A8Unorm"
  | .unsupported => "Unsupported"

def tilingDebug : Gpu.Tiling → String
  | .linear => "Linear"
  | .tiled tileModeIndex => "Tiled \x7b tile_mode_index: " ++ toString tileModeIndex ++ " \x7d"

def topologyDebug : PrimitiveTopology → String
  | .triangleList => "TriangleList"
  | .triangleStrip => "TriangleStrip"

inductive VertexFormat where
  | r32Sfloat
  | r32G32Sfloat
  | r32G32B32Sfloat
  | r32G32B32A32Sfloat
  | r32Uint
  | r32G32B32A32Uint
  | r32Sint
  | r32G32B32A32Sint
  | r8G8B8A8Unorm
  | r16G16Unorm
  | unsupported
  deriving DecidableEq, Repr

def vertexFormatDebug : VertexFormat → String
  | .r32Sfloat => "R32Sfloat"
  | .r32G32Sfloat => "R32G32Sfloat"
  | .r32G32B32Sfloat => "R32G32B32Sfloat"
  | .r32G32B32A32Sfloat => "R32G32B32A32Sfloat"
  | .r32Uint => "R32Uint"
  | .r32G32B32A32Uint => "R32G32B32A32Uint"
  | .r32Sint => "R32Sint"
  | .r32G32B32A32Sint => "R32G32B32A32Sint"
  | .r8G8B8A8Unorm => "R8G8B8A8Unorm"
  | .r16G16Unorm => "R16G16Unorm"
  | .unsupported => "Unsupported"

structure VertexAttr where
  location : ℕ
  binding : ℕ
  format : VertexFormat
  offset : ℕ
  deriving DecidableEq, Repr

structure VertexBinding where
  binding : ℕ
  stride : ℕ
  deriving DecidableEq, Repr

/-- The counts tell how many of the entries are live. -/
structure VertexLayout where
  attributeCount : ℕ
  attributes : Vector VertexAttr 16
  bindingCount : ℕ
  bindings : Vector VertexBinding 16
  deriving DecidableEq, Repr

def listDebug (xs : List String) : String := "[" ++ ", ".intercalate xs ++ "]"

def vertexAttrDebug (a : VertexAttr) : String :=
  "VertexAttr \x7b location: " ++ toString a.location ++ ", binding: " ++ toString a.binding ++
    ", format: " ++ vertexFormatDebug a.format ++ ", offset: " ++ toString a.offset ++ " \x7d"

def vertexBindingDebug (b : VertexBinding) : String :=
  "VertexBinding \x7b binding: " ++ toString b.binding ++ ", stride: " ++ toString b.stride ++ " \x7d"

def vertexLayoutDebug : Option VertexLayout → String
  | none => "None"
  | some l =>
      "Some(VertexLayout \x7b attribute_count: " ++ toString l.attributeCount ++ ", attributes: " ++
        listDebug (l.attributes.toList.map vertexAttrDebug) ++ ", binding_count: " ++
        toString l.bindingCount ++ ", bindings: " ++
        listDebug (l.bindings.toList.map vertexBindingDebug) ++ " \x7d)"

end Debug

section Registers

/-- The registers of the file that have a name of their own. -/
def allPipelineRegs : List (ℕ × String) :=
  let sh := RegBank.sh.base.toNat
  let ctx := RegBank.context.base.toNat
  let uconfig := RegBank.uconfig.base.toNat
  [(sh+0x08,"SPI_SHADER_PGM_LO_PS"),
    (sh+0x09,"SPI_SHADER_PGM_HI_PS"),
    (sh+0x0a,"SPI_SHADER_PGM_RSRC1_PS"),
    (sh+0x0b,"SPI_SHADER_PGM_RSRC2_PS"),
    (sh+0x07,"SPI_SHADER_PGM_RSRC3_PS"),
    (sh+0x48,"SPI_SHADER_PGM_LO_VS"),
    (sh+0x49,"SPI_SHADER_PGM_HI_VS"),
    (sh+0x4a,"SPI_SHADER_PGM_RSRC1_VS"),
    (sh+0x4b,"SPI_SHADER_PGM_RSRC2_VS"),
    (sh+0x46,"SPI_SHADER_PGM_RSRC3_VS"),
    (sh+0x0c,"SPI_SHADER_USER_DATA_PS_0"),
    (sh+0x4c,"SPI_SHADER_USER_DATA_VS_0"),
    (ctx+0x1b1,"SPI_VS_OUT_CONFIG"),
    (ctx+0x1b3,"SPI_PS_INPUT_ENA"),
    (ctx+0x1b4,"SPI_PS_INPUT_ADDR"),
    (ctx+0x1b6,"SPI_PS_IN_CONTROL"),
    (ctx+0x1b8,"SPI_BARYC_CNTL"),
    (ctx+0x1c3,"SPI_SHADER_POS_FORMAT"),
    (ctx+0x1c4,"SPI_SHADER_Z_FORMAT"),
    (ctx+0x1c5,"SPI_SHADER_COL_FORMAT"),
    (ctx+0x191,"SPI_PS_INPUT_CNTL_0"),
    (ctx+0x08e,"CB_TARGET_MASK"),
    (ctx+0x08f,"CB_SHADER_MASK"),
    (ctx+0x203,"DB_SHADER_CONTROL"),
    (ctx+0x207,"PA_CL_VS_OUT_CNTL"),
    (ctx+0x318,"CB_COLOR0_BASE"),
    (ctx+0x319,"CB_COLOR0_PITCH"),
    (ctx+0x31a,"CB_COLOR0_SLICE"),
    (ctx+0x31b,"CB_COLOR0_VIEW"),
    (ctx+0x31c,"CB_COLOR0_INFO"),
    (ctx+0x31d,"CB_COLOR0_ATTRIB"),
    (ctx+0x10f,"PA_CL_VPORT_XSCALE"),
    (ctx+0x110,"PA_CL_VPORT_XOFFSET"),
    (ctx+0x111,"PA_CL_VPORT_YSCALE"),
    (ctx+0x112,"PA_CL_VPORT_YOFFSET"),
    (ctx+0x00c,"PA_SC_SCREEN_SCISSOR_TL"),
    (ctx+0x00d,"PA_SC_SCREEN_SCISSOR_BR"),
    (ctx+0x1e0,"CB_BLEND0_CONTROL"),
    (ctx+0x202,"CB_COLOR_CONTROL"),
    (ctx+0x200,"DB_DEPTH_CONTROL"),
    (ctx+0x010,"DB_Z_INFO"),
    (uconfig+0x242,"VGT_PRIMITIVE_TYPE")]

/-- The blocks of numbered registers, by their first, how many there are and their name. -/
def indexedBlocks : List (ℕ × ℕ × String) :=
  [(RegBank.context.base.toNat+0x191,32,"SPI_PS_INPUT_CNTL_"),
    (RegBank.sh.base.toNat+0x4c,16,"SPI_SHADER_USER_DATA_VS_"),
    (RegBank.sh.base.toNat+0x0c,16,"SPI_SHADER_USER_DATA_PS_")]

def regName (index : Dword) : Option String :=
  let i := index.toNat
  match indexedBlocks.find? fun (first,count,_) => first ≤ i ∧ i < first+count with
  | some (first,_,name) => some (name ++ toString (i-first))
  | none => (allPipelineRegs.find? fun r => r.1 = i).map Prod.snd

/-- The name of a bank in `BANKS`. -/
def bankName : RegBank → String
  | .context => "context"
  | .sh => "sh"
  | .uconfig => "uconfig"
  | .config => "config"

end Registers

section Blending

structure BlendKey where
  enable : Bool
  control : BitVec 32
  writeMask : BitVec 8
  deriving DecidableEq, Repr

structure BlendFields where
  colorSrc : ℕ
  colorComb : ℕ
  colorDst : ℕ
  alphaSrc : ℕ
  alphaComb : ℕ
  alphaDst : ℕ
  separateAlpha : Bool
  deriving DecidableEq, Repr

/-- Without separate alpha the fields of alpha mirror those of colour. -/
def BlendKey.fields (b : BlendKey) : BlendFields :=
  let field (start width : ℕ) : ℕ := b.control.toNat/2^start % 2^width
  let separateAlpha : Bool := field 29 1 ≠ 0
  { colorSrc := field 0 5
    colorComb := field 5 3
    colorDst := field 8 5
    alphaSrc := if separateAlpha then field 16 5 else field 0 5
    alphaComb := if separateAlpha then field 21 3 else field 5 3
    alphaDst := if separateAlpha then field 24 5 else field 8 5
    separateAlpha }

def blendFactorName (factor : ℕ) : String :=
  match factor with
  | 0 => "ZERO"
  | 1 => "ONE"
  | 2 => "SRC_COLOR"
  | 3 => "ONE_MINUS_SRC_COLOR"
  | 4 => "SRC_ALPHA"
  | 5 => "ONE_MINUS_SRC_ALPHA"
  | 6 => "DST_ALPHA"
  | 7 => "ONE_MINUS_DST_ALPHA"
  | 8 => "DST_COLOR"
  | 9 => "ONE_MINUS_DST_COLOR"
  | 10 => "SRC_ALPHA_SATURATE"
  | _ => "?"

def blendOpName (comb : ℕ) : String :=
  match comb with
  | 0 => "ADD"
  | 1 => "SUBTRACT"
  | 2 => "MIN"
  | 3 => "MAX"
  | 4 => "REVERSE_SUBTRACT"
  | _ => "?"

def writeMaskStr (mask : BitVec 8) : String :=
  .ofList ((['R','G','B','A'].zipIdx).map fun (c,i) => if mask.getLsbD i then c else '-')

end Blending

section Textures

variable (t : TextureDesc)

/-- Four bytes a texel; the tiled kinds take whole micro-tiles. -/
def textureByteSpan : ℕ :=
  match Gcn.tileKind t.tilingIndex with
  | .linear => saturatingMul (saturatingMul t.width t.height) 4
  | .linearAligned =>
      saturatingMul (saturatingMul (Gcn.linearAlignedPitchOr t.width t.pitch) t.height) 4
  | .thin1d | .macro2d =>
      saturatingMul (saturatingMul (saturatingMul ((t.width+7)/8) ((t.height+7)/8)) 64) 4

end Textures

section Records

inductive TargetKind where
  | videoout
  | offscreen (base : BitVec 64) (size : ℕ)
  deriving DecidableEq, Repr

structure TargetDesc where
  width : ℕ
  height : ℕ
  pitch : ℕ
  format : ColorFormat
  tiling : Gpu.Tiling
  kind : TargetKind
  deriving DecidableEq, Repr

structure DepthKey where
  enable : Bool
  control : BitVec 32
  deriving DecidableEq, Repr

structure ResourceSignature where
  storage : Option Slot
  constStorage : Option Slot
  constStorageFragment : Option Slot
  textures : Vector (Option Slot) 8
  deriving DecidableEq, Repr

structure PipelineKey where
  vsHash : BitVec 64
  psHash : BitVec 64
  vertexLayout : Option VertexLayout
  resources : ResourceSignature
  colorFormat : ColorFormat
  blend : BlendKey
  depth : DepthKey
  topology : PrimitiveTopology
  deriving DecidableEq, Repr

structure SamplerState where
  bilinear : Bool
  clampX : SamplerAddressMode
  clampY : SamplerAddressMode
  deriving DecidableEq, Repr

structure ShaderIdent where
  kind : String
  addr : Option (BitVec 64)
  hash : BitVec 64
  spirvWords : ℕ
  dump : Option ShaderDumpRef
  psInputMap : Option (Vector UInt8 32)
  deriving DecidableEq, Repr

structure BufferRecord where
  addr : BitVec 64
  size : ℕ
  layout : String
  desc : BufferDesc
  deriving DecidableEq

structure ConstBufferRecord where
  stage : String
  addr : BitVec 64
  size : ℕ
  desc : BufferDesc
  bytes : Bytes
  deriving DecidableEq

inductive TextureDumpOutcome where
  | disabled
  | renderTargetSource
  | tooLarge (span cap : ℕ)
  | readFailed (span : ℕ)
  | dumped (key : String) (detiledKey : Option String) (span : ℕ) (detiled : Except String ℕ)

inductive RtDumpOutcome where
  | disabled
  | videoout
  | requested (key : String)
  deriving DecidableEq, Repr

structure SampledRecord where
  set : ℕ
  binding : ℕ
  source : String
  base : BitVec 64
  width : ℕ
  height : ℕ
  texture : Option TextureDesc
  sampler : Option SamplerState
  samplerBound : SamplerDesc
  descriptorHonoured : Bool
  dump : TextureDumpOutcome

structure DrawRecord where
  ordinal : ℕ
  kind : String
  count : ℕ
  target : TargetDesc
  pipeline : PipelineKey
  viewport : ViewportRect
  scissor : ScissorRect
  vs : ShaderIdent
  ps : ShaderIdent
  buffers : List BufferRecord
  constBuffers : List ConstBufferRecord
  targetDump : RtDumpOutcome
  sampled : List SampledRecord
  regDelta : List (Change Reg Dword)
  fillColor : Option (Vector F32 4)

structure DeferDetail where
  stage : String
  shaderAddr : BitVec 64
  shaderHash : BitVec 64
  instruction : Option String
  deriving DecidableEq, Repr

structure DeferredRecord where
  ordinal : ℕ
  kind : String
  count : ℕ
  reason : String
  afterDraw : ℕ
  detail : Option DeferDetail
  deriving DecidableEq, Repr

end Records

section Writing

/-- A character of a string as the file has it. -/
def jsonChar (c : Char) : List Char :=
  if c = '"' then ['\\','"']
  else if c = '\\' then ['\\','\\']
  else if c = '\n' then ['\\','n']
  else if c = '\r' then ['\\','r']
  else if c = '\t' then ['\\','t']
  else if c.toNat < 0x20 then '\\' :: 'u' :: padded 4 c.toNat
  else [c]

def jsonStr (s : String) : String := .ofList ('"' :: (s.toList.flatMap jsonChar ++ ['"']))

/-- A float has no text that is a number if it is not finite. -/
def jsonF32 (v : F32) : String := if v.isFinite then v.display else jsonStr v.display

def jsonOption {α : Type} (json : α → String) : Option α → String
  | some x => json x
  | none => "null"

/-- A text in quotes as it is. -/
def quoted (s : String) : String := "\"" ++ s ++ "\""

def hexWord (a : BitVec 64) : String := hex a.toNat

def vSharpJson (d : BufferDesc) : String :=
  "\x7b\"base\": \"" ++ hex d.base ++ "\", \"stride\": " ++ toString d.stride ++ ", \"num_records\": " ++
    toString d.numRecords ++ ", \"dfmt\": " ++ jsonStr (dataFormatDebug d.dfmt) ++ ", \"nfmt\": " ++
    jsonStr (numFormatDebug d.nfmt) ++ ", \"dst_sel\": [" ++
    ", ".intercalate (d.dstSel.toList.map fun s => toString s.toNat) ++ "], \"byte_span\": " ++
    toString d.byteSpan ++ ", \"null\": " ++ toString d.isNull ++ "\x7d"

def tSharpJson (t : TextureDesc) : String :=
  "\x7b\"base\": \"" ++ hexWord t.base ++ "\", \"width\": " ++ toString t.width ++ ", \"height\": " ++
    toString t.height ++ ", \"dfmt\": " ++ toString t.dfmt ++ ", \"nfmt\": " ++ toString t.nfmt ++
    ", \"tiling_index\": " ++ toString t.tilingIndex ++ ", \"tile_kind\": " ++
    jsonStr (tileKindDebug (Gcn.tileKind t.tilingIndex)) ++ ", \"pitch\": " ++ toString t.pitch ++
    ", \"byte_span\": " ++ toString (textureByteSpan t) ++ "\x7d"

def sSharpJson (s : SamplerState) : String :=
  "\x7b\"bilinear\": " ++ toString s.bilinear ++ ", \"clamp_x\": " ++ jsonStr (addressModeDebug s.clampX) ++
    ", \"clamp_y\": " ++ jsonStr (addressModeDebug s.clampY) ++ "\x7d"

def samplerBoundJson (s : SamplerDesc) : String :=
  "\x7b\"mag_filter\": " ++ jsonStr (filterDebug s.magFilter) ++ ", \"min_filter\": " ++
    jsonStr (filterDebug s.minFilter) ++ ", \"address_mode_u\": " ++
    jsonStr (addressModeDebug s.addressModeU) ++ ", \"address_mode_v\": " ++
    jsonStr (addressModeDebug s.addressModeV) ++ "\x7d"

def targetJson (t : TargetDesc) : String :=
  let (kind,base,size) :=
    match t.kind with
    | .offscreen base size => ("Offscreen",quoted (hexWord base),toString size)
    | .videoout => ("Videoout","null","null")
  "\x7b\"kind\": " ++ jsonStr kind ++ ", \"base\": " ++ base ++ ", \"size\": " ++ size ++
    ", \"width\": " ++ toString t.width ++ ", \"height\": " ++ toString t.height ++ ", \"pitch\": " ++
    toString t.pitch ++ ", \"format\": " ++ jsonStr (colorFormatDebug t.format) ++ ", \"tiling\": " ++
    jsonStr (tilingDebug t.tiling) ++ "\x7d"

def blendJson (b : BlendKey) : String :=
  let f := b.fields
  "\x7b\"enable\": " ++ toString b.enable ++ ", \"control\": \"" ++ hexDword b.control ++
    "\", \"write_mask\": \"" ++ hex b.writeMask.toNat ++ "\", \"decoded\": \x7b\"color_src\": " ++
    jsonStr (blendFactorName f.colorSrc) ++ ", \"color_dst\": " ++
    jsonStr (blendFactorName f.colorDst) ++ ", \"color_op\": " ++ jsonStr (blendOpName f.colorComb) ++
    ", \"alpha_src\": " ++ jsonStr (blendFactorName f.alphaSrc) ++ ", \"alpha_dst\": " ++
    jsonStr (blendFactorName f.alphaDst) ++ ", \"alpha_op\": " ++ jsonStr (blendOpName f.alphaComb) ++
    ", \"separate_alpha\": " ++ toString f.separateAlpha ++ ", \"write_rgba\": " ++
    jsonStr (writeMaskStr b.writeMask) ++ "\x7d\x7d"

def slotJson (s : Slot) : String :=
  "\x7b\"set\": " ++ toString s.set ++ ", \"binding\": " ++ toString s.binding ++ "\x7d"

def resourcesJson (r : ResourceSignature) : String :=
  "\x7b\"storage\": " ++ jsonOption slotJson r.storage ++ ", \"const_storage\": " ++
    jsonOption slotJson r.constStorage ++ ", \"const_storage_fragment\": " ++
    jsonOption slotJson r.constStorageFragment ++ ", \"textures\": [" ++
    ", ".intercalate ((r.textures.toList.filterMap id).map slotJson) ++ "]\x7d"

def pipelineJson (p : PipelineKey) : String :=
  "\x7b\"vs_hash\": \"" ++ hexPadded 16 p.vsHash.toNat ++ "\", \"ps_hash\": \"" ++
    hexPadded 16 p.psHash.toNat ++ "\", \"color_format\": " ++ jsonStr (colorFormatDebug p.colorFormat) ++
    ", \"blend\": " ++ blendJson p.blend ++ ", \"depth\": \x7b\"enable\": " ++ toString p.depth.enable ++
    ", \"control\": \"" ++ hexDword p.depth.control ++ "\"\x7d, \"vertex_layout\": " ++
    jsonStr (vertexLayoutDebug p.vertexLayout) ++ ", \"topology\": " ++
    jsonStr (topologyDebug p.topology) ++ ", \"resources\": " ++ resourcesJson p.resources ++ "\x7d"

def viewportJson (v : ViewportRect) : String :=
  "\x7b\"x\": " ++ jsonF32 v.x ++ ", \"y\": " ++ jsonF32 v.y ++ ", \"width\": " ++ jsonF32 v.width ++
    ", \"height\": " ++ jsonF32 v.height ++ "\x7d"

def scissorJson (s : ScissorRect) : String :=
  "\x7b\"x\": " ++ toString s.x ++ ", \"y\": " ++ toString s.y ++ ", \"width\": " ++ toString s.width ++
    ", \"height\": " ++ toString s.height ++ "\x7d"

/-- The files of a dump, by its key. -/
def shaderDumpJson (d : ShaderDumpRef) : String :=
  let path (present : Bool) (ext : String) : String :=
    if present then "\"shaders/" ++ d.key ++ "." ++ ext ++ "\"" else "null"
  "\x7b\"spirv\": \"shaders/" ++ d.key ++ ".spv\", \"sb\": " ++ path d.sb "sb" ++ ", \"disasm\": " ++
    path d.disasm "txt" ++ "\x7d"

def psInputMapJson (m : Vector UInt8 32) : String :=
  "[" ++ ", ".intercalate (m.toList.map fun o => toString o.toNat) ++ "]"

def shaderJson (s : ShaderIdent) : String :=
  "\x7b\"kind\": " ++ jsonStr s.kind ++ ", \"addr\": " ++ jsonOption (fun a => quoted (hexWord a)) s.addr ++
    ", \"hash\": \"" ++ hexPadded 16 s.hash.toNat ++ "\", \"spirv_words\": " ++ toString s.spirvWords ++
    ", \"dump\": " ++ jsonOption shaderDumpJson s.dump ++ ", \"ps_input_map\": " ++
    jsonOption psInputMapJson s.psInputMap ++ "\x7d"

/-- `chunks_exact(4)`, each as a little-endian dword. -/
def dwords : Bytes → List (BitVec 32)
  | a :: b :: c :: d :: bytes =>
      (d.toBitVec ++ c.toBitVec ++ b.toBitVec ++ a.toBitVec) :: dwords bytes
  | _ => []

def dwordsJson (bytes : Bytes) : String :=
  ", ".intercalate ((dwords bytes).map fun w => quoted (hexDword w))

def floatsJson (bytes : Bytes) : String := ", ".intercalate ((dwords bytes).map jsonF32)

def texturesEnv : String := "UNEMUPS4_SNAPSHOT_TEXTURES"

def textureMaxBytesEnv : String := "UNEMUPS4_SNAPSHOT_TEX_MAX_BYTES"

def renderTargetsEnv : String := "UNEMUPS4_SNAPSHOT_RENDER_TARGETS"

/-- A dump that was not made, and why. -/
def refusedJson (reason : String) : String :=
  "\x7b\"dumped\": false, \"reason\": \"" ++ reason ++ "\"\x7d"

def rtDumpOff : String := "render-target dumping is off; set " ++ renderTargetsEnv ++ "=1"

def rtDumpVideoout : String :=
  "this draw targets VIDEOOUT, not an offscreen render target " ++
    "— the presented frame is what UNEMUPS4_DUMP_PNG dumps per flip"

def rtDumpSource : String := "host RT image copy (linear RGBA8) — NOT a guest-memory readback"

def rtDumpNote : String :=
  "requested from the display thread; an absent file means the copy " ++
    "failed and was logged, never that the target was empty"

def rtDumpJson : RtDumpOutcome → String
  | .disabled => refusedJson rtDumpOff
  | .videoout => refusedJson rtDumpVideoout
  | .requested key =>
      "\x7b\"dumped\": true, \"key\": " ++ jsonStr key ++ ", \"png\": \"render-targets/" ++ key ++
        ".png\", \"source\": \"" ++ rtDumpSource ++ "\", \"note\": \"" ++ rtDumpNote ++ "\"\x7d"

/-- The outcome of the detiling, with its files when they were named. -/
def detiledJson (detiled : Except String ℕ) (detiledKey : Option String) : String :=
  match detiled,detiledKey with
  | .ok len,some dkey =>
      "\x7b\"ok\": true, \"bytes\": " ++ toString len ++ ", \"raw\": \"textures/" ++ dkey ++
        ".detiled.raw\", \"png\": \"textures/" ++ dkey ++ ".png\"\x7d"
  | .ok len,none => "\x7b\"ok\": true, \"bytes\": " ++ toString len ++ "\x7d"
  | .error e,_ => "\x7b\"ok\": false, \"error\": " ++ jsonStr e ++ "\x7d"

def textureDumpOff : String := "texture dumping is off; set " ++ texturesEnv ++ "=1"

def textureResident : String :=
  "texels are GPU-resident (RT-as-texture), not in " ++
    "guest memory — this dump reads guest memory only. For the pixels, see the " ++
    "producing draw's target_dump PNG under render-targets/ (" ++ renderTargetsEnv ++ "=1)"

def textureTooLarge (span cap : ℕ) : String :=
  "byte_span " ++ toString span ++ " over the " ++ textureMaxBytesEnv ++ " cap of " ++ toString cap

def textureReadFailed (span : ℕ) : String :=
  "bounded read of " ++ toString span ++ " bytes at the T# base faulted"

def textureDumpJson : TextureDumpOutcome → String
  | .disabled => refusedJson textureDumpOff
  | .renderTargetSource => refusedJson textureResident
  | .tooLarge span cap =>
      "\x7b\"dumped\": false, \"reason\": \"" ++ textureTooLarge span cap ++ "\", \"byte_span\": " ++
        toString span ++ ", \"cap_bytes\": " ++ toString cap ++ "\x7d"
  | .readFailed span =>
      "\x7b\"dumped\": false, \"read_failed\": true, \"reason\": \"" ++ textureReadFailed span ++
        "\", \"byte_span\": " ++ toString span ++ "\x7d"
  | .dumped key detiledKey span detiled =>
      "\x7b\"dumped\": true, \"key\": " ++ jsonStr key ++ ", \"byte_span\": " ++ toString span ++
        ", \"raw\": \"textures/" ++ key ++ ".raw\", \"detiled\": " ++ detiledJson detiled detiledKey ++
        "\x7d"

def regChangeJson (c : Change Reg Dword) : String :=
  "\n        \x7b\"bank\": " ++ jsonStr (bankName c.key.bank) ++ ", \"index\": " ++
    toString c.key.index.toNat ++ ", \"index_hex\": \"" ++ hex c.key.index.toNat ++ "\", \"name\": " ++
    jsonOption jsonStr (regName c.key.index) ++ ", \"from\": " ++
    jsonOption (fun v => quoted (hexDword v)) c.before ++ ", \"to\": " ++
    jsonOption (fun v => quoted (hexDword v)) c.after ++ "\x7d"

def bufferJson (b : BufferRecord) : String :=
  "\n        \x7b\"addr\": \"" ++ hexWord b.addr ++ "\", \"size\": " ++ toString b.size ++
    ", \"layout\": " ++ jsonStr b.layout ++ ", \"v_sharp\": " ++ vSharpJson b.desc ++ "\x7d"

def constBufferJson (c : ConstBufferRecord) : String :=
  "\n        \x7b\"stage\": " ++ jsonStr c.stage ++ ", \"addr\": \"" ++ hexWord c.addr ++
    "\", \"size\": " ++ toString c.size ++ ", \"v_sharp\": " ++ vSharpJson c.desc ++
    ", \"dumped_bytes\": " ++ toString c.bytes.length ++ ", \"truncated\": " ++
    toString (decide (c.size > c.bytes.length)) ++ ", \"read_failed\": " ++
    toString (decide (c.bytes = [] ∧ c.size > 0)) ++ ", \"dwords\": [" ++ dwordsJson c.bytes ++
    "], \"floats\": [" ++ floatsJson c.bytes ++ "]\x7d"

def sampledJson (s : SampledRecord) : String :=
  "\n        \x7b\"set\": " ++ toString s.set ++ ", \"binding\": " ++ toString s.binding ++
    ", \"source\": " ++ jsonStr s.source ++ ", \"base\": \"" ++ hexWord s.base ++ "\", \"width\": " ++
    toString s.width ++ ", \"height\": " ++ toString s.height ++ ", \"descriptor_honoured\": " ++
    toString s.descriptorHonoured ++ ", \"texels\": " ++ textureDumpJson s.dump ++ ", \"t_sharp\": " ++
    jsonOption tSharpJson s.texture ++ ", \"s_sharp\": " ++ jsonOption sSharpJson s.sampler ++
    ", \"sampler_bound\": " ++ samplerBoundJson s.samplerBound ++ "\x7d"

def fillColorJson (v : Vector F32 4) : String :=
  "[" ++ ", ".intercalate (v.toList.map jsonF32) ++ "]"

/-- The entries of a list of a draw, and the bracket behind them. -/
def entriesJson (entries : List String) : String :=
  ",".intercalate entries ++ if entries = [] then "]" else "\n      ]"

def drawJson (d : DrawRecord) : String :=
  "    \x7b\n      \"ordinal\": " ++ toString d.ordinal ++ ",\n" ++
  "      \"kind\": " ++ jsonStr d.kind ++ ",\n" ++
  "      \"count\": " ++ toString d.count ++ ",\n" ++
  "      \"target\": " ++ targetJson d.target ++ ",\n" ++
  "      \"target_dump\": " ++ rtDumpJson d.targetDump ++ ",\n" ++
  "      \"pipeline\": " ++ pipelineJson d.pipeline ++ ",\n" ++
  "      \"viewport\": " ++ viewportJson d.viewport ++ ",\n" ++
  "      \"scissor\": " ++ scissorJson d.scissor ++ ",\n" ++
  "      \"vs\": " ++ shaderJson d.vs ++ ",\n" ++
  "      \"ps\": " ++ shaderJson d.ps ++ ",\n" ++
  "      \"fill_color_heuristic\": " ++ jsonOption fillColorJson d.fillColor ++ ",\n" ++
  "      \"register_delta\": [" ++ entriesJson (d.regDelta.map regChangeJson) ++ ",\n" ++
  "      \"buffers\": [" ++ entriesJson (d.buffers.map bufferJson) ++ ",\n" ++
  "      \"const_buffers\": [" ++ entriesJson (d.constBuffers.map constBufferJson) ++ ",\n" ++
  "      \"sampled\": [" ++ entriesJson (d.sampled.map sampledJson) ++ "\n" ++
  "    \x7d"

/-- What a deferred draw has of the shader that deferred it, behind its other members. -/
def deferDetailJson : Option DeferDetail → String
  | some det =>
      ", \"stage\": " ++ jsonStr det.stage ++ ", \"shader_addr\": \"" ++ hexWord det.shaderAddr ++
        "\", \"shader_hash\": \"" ++ .ofList (padded 16 det.shaderHash.toNat) ++
        "\", \"instruction\": " ++ jsonOption jsonStr det.instruction
  | none => ""

def deferredJson (d : DeferredRecord) : String :=
  "    \x7b\"ordinal\": " ++ toString d.ordinal ++ ", \"kind\": " ++ jsonStr d.kind ++ ", \"count\": " ++
    toString d.count ++ ", \"reason\": " ++ jsonStr d.reason ++ ", \"after_submitted_draw\": " ++
    toString d.afterDraw ++ deferDetailJson d.detail ++ "\x7d"

/-- One text a line, with commas between them. -/
def lines : List String → String
  | [] => ""
  | [t] => t ++ "\n"
  | t :: ts => t ++ ",\n" ++ lines ts

def drawsJson (frame : ℕ) (draws : List DrawRecord) (deferred : List DeferredRecord) : String :=
  "\x7b\n  \"frame\": " ++ toString frame ++ ",\n  \"draw_count\": " ++ toString draws.length ++
    ",\n  \"deferred_count\": " ++ toString deferred.length ++ ",\n" ++
    "  \"draws\": [\n" ++ lines (draws.map drawJson) ++ "  ],\n" ++
    "  \"deferred_draws\": [\n" ++ lines (deferred.map deferredJson) ++ "  ]\n\x7d\n"

end Writing

end Unemups4.Gnm.Records
