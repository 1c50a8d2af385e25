import Mathlib

/-! The guest-side resource cache: keyed entries with guest-minted ids, upload on use,
invalidation by range, least-recently-used trimming of the linear buffers. Operations
return the backend commands they append and the calls they make to the dirty source.
A panic of the source (exhausted ids) is `none`. -/
namespace Unemups4.Gnm

abbrev Bytes := List UInt8

structure SurfaceFormat where
  dfmt : ℕ
  nfmt : ℕ
  deriving DecidableEq, Repr

inductive TexelSize where
  | bpp32
  | bpp64
  deriving DecidableEq, Repr

inductive Tiling where
  | linearGeneral
  | linearAligned
  | thin1d
  deriving DecidableEq, Repr

structure SurfaceLayout where
  texel : TexelSize
  width : ℕ
  height : ℕ
  tiling : Tiling
  pitch : ℕ
  deriving DecidableEq, Repr

/-- The kind the guest bytes are viewed as. -/
inductive ResLayout where
  | vertexBuf
  | indexBuf
  | constBuf
  | texture (format : SurfaceFormat) (surface : SurfaceLayout)
  | renderTarget (format : SurfaceFormat) (surface : SurfaceLayout)
  deriving DecidableEq, Repr

def isLinearBuffer : ResLayout → Bool
  | .vertexBuf | .indexBuf | .constBuf => true
  | _ => false

/-- Whether dirty-tracking a layout earns back what it costs. -/
def watchPays : ResLayout → Bool
  | .vertexBuf | .constBuf => false
  | _ => true

structure ResourceKey where
  addr : ℕ
  size : ℕ
  layout : ResLayout
  deriving DecidableEq, Repr

inductive Coherence where
  | copySide
  | zeroCopyCandidate
  deriving DecidableEq, Repr

/-- The coherence source and the import probe, both boot-resolved. -/
structure CachePolicy where
  coherence : ℕ → ℕ → Coherence
  canImport : ℕ → ℕ → Coherence → Bool

structure Entry where
  id : ℕ
  imported : Bool
  isRt : Bool
  dirty : Bool
  lastUsed : ℕ
  deriving DecidableEq, Repr

inductive SamplerFilter where
  | nearest
  | linear
  deriving DecidableEq, Repr

inductive SamplerAddressMode where
  | repeating
  | mirrorRepeat
  | clampToEdge
  deriving DecidableEq, Repr

structure SamplerDesc where
  magFilter : SamplerFilter
  minFilter : SamplerFilter
  addressModeU : SamplerAddressMode
  addressModeV : SamplerAddressMode
  deriving DecidableEq, Repr

inductive TextureFormat where
  | r8g8b8a8Unorm
  | r8g8b8a8Srgb
  deriving DecidableEq, Repr

inductive ColorFormat where
  | b8g8r8a8Unorm
  | r8g8b8a8Unorm
  | unsupported
  deriving DecidableEq, Repr

/-- The backend commands that create, fill and free resources. -/
inductive ResourceCmd where
  | createBuffer (id size : ℕ)
  | uploadBuffer (id offset : ℕ) (data : Bytes)
  | importBuffer (id addr size : ℕ)
  | freeResource (id : ℕ)
  | createImage (id width height : ℕ) (format : TextureFormat)
  | uploadImage (id : ℕ) (data : Bytes)
  | createSampler (id : ℕ) (desc : SamplerDesc)
  | createRenderTarget (id width height : ℕ) (format : ColorFormat)
  deriving DecidableEq, Repr

inductive WatchOp where
  | watch (addr size : ℕ)
  | unwatch (addr size : ℕ)
  deriving DecidableEq, Repr

structure ResourceCache where
  entries : List (ResourceKey × Entry)
  samplers : List (SamplerDesc × ℕ)
  nextId : ℕ
  whiteDummy : Option ℕ
  trimmedFlip : ℕ
  bufferBytes : ℕ
  deriving DecidableEq, Repr

def bufferBudgetBytes : ℕ := 64*1024*1024

def u64Max : ℕ := 2^64-1

def saturatingAdd (a b : ℕ) : ℕ := min (a+b) u64Max

/-- Half-open byte ranges; an empty one overlaps nothing. -/
def rangesOverlap (aStart aLen bStart bLen : ℕ) : Bool :=
  if aLen = 0 ∨ bLen = 0 then false
  else aStart < saturatingAdd bStart bLen && bStart < saturatingAdd aStart aLen

/-- Below the last address the saturation is harmless: two ranges with a byte in common
overlap. -/
lemma rangesOverlap_of_mem {a n b k x : ℕ} (ha : a ≤ x) (hn : x < a+n) (hb : b ≤ x)
    (hk : x < b+k) (hx : x < u64Max) : rangesOverlap a n b k = true := by
  have hnonempty : ¬(n = 0 ∨ k = 0) := by omega
  have hak : a < min (b+k) u64Max := by omega
  have hbn : b < min (a+n) u64Max := by omega
  simp [rangesOverlap, saturatingAdd, hnonempty, hak, hbn]

lemma mem_of_rangesOverlap_one {a n x : ℕ} (h : rangesOverlap a n x 1 = true) :
    a ≤ x ∧ x < a+n := by
  have hn : n ≠ 0 := by
    rintro rfl
    simp [rangesOverlap] at h
  simp only [rangesOverlap, hn, one_ne_zero, or_self, if_false, Bool.and_eq_true,
    decide_eq_true_eq] at h
  simp only [saturatingAdd] at h
  omega

namespace ResourceCache

def new : ResourceCache := ⟨[],[],1,none,0,0⟩

def lookup (c : ResourceCache) (key : ResourceKey) : Option Entry := c.entries.lookup key

def modify (c : ResourceCache) (key : ResourceKey) (f : Entry → Entry) : ResourceCache :=
  { c with entries := c.entries.map fun p => if p.1 = key then (p.1,f p.2) else p }

def touch (c : ResourceCache) (key : ResourceKey) : ResourceCache :=
  c.modify key fun e => { e with lastUsed := c.trimmedFlip }

def remove (c : ResourceCache) (key : ResourceKey) : ResourceCache :=
  { c with entries := c.entries.filter fun p => p.1 ≠ key }

/-- The loop of `trim` over the candidates, oldest first. -/
def evict (c : ResourceCache) : List ResourceKey → ResourceCache × List ResourceCmd
  | [] => (c,[])
  | key :: rest =>
      if c.bufferBytes ≤ bufferBudgetBytes then (c,[])
      else match c.lookup key with
        | none => evict c rest
        | some entry =>
            let r := evict { c.remove key with bufferBytes := c.bufferBytes-key.size } rest
            (r.1,.freeResource entry.id :: r.2)

def candidates (c : ResourceCache) : List ResourceKey :=
  ((c.entries.filter fun p => isLinearBuffer p.1.layout && !p.2.imported).insertionSort
    fun p q => p.2.lastUsed ≤ q.2.lastUsed).map (·.1)

/-- Hold the linear buffers to the byte budget, at most once per flip. -/
def trim (c : ResourceCache) (now : ℕ) : ResourceCache × List ResourceCmd :=
  if now = c.trimmedFlip then (c,[])
  else
    let c := { c with trimmedFlip := now }
    if c.bufferBytes ≤ bufferBudgetBytes then (c,[])
    else c.evict c.candidates

def mintId (c : ResourceCache) : Option (ℕ × ResourceCache) :=
  if c.nextId+1 < 2^32 then some (c.nextId,{ c with nextId := c.nextId+1 }) else none

/-- What `get` and `get_texture` do differently: when a hit needs no command, how the
guest bytes are snapshotted, how the resource is created, and the bookkeeping of a
first use. -/
structure Recipe where
  clean : Entry → Bool
  upload : ℕ → Option ResourceCmd
  imported : Bool
  create : ℕ → ResourceCmd
  watch : Bool
  account : Bool

/-- Where a lookup stands after the guest bytes were read: a hit is complete, a first
use still has to watch its range and be recorded. -/
inductive Acquired where
  | hit (id : ℕ)
  | miss (entry : Entry)
  deriving DecidableEq, Repr

def Acquired.id : Acquired → ℕ
  | hit id => id
  | miss entry => entry.id

/-- The part of a lookup up to and including the read of the guest bytes. -/
def acquireRead (c : ResourceCache) (now : ℕ) (key : ResourceKey) (r : Recipe) :
    Option (Acquired × ResourceCache × List ResourceCmd) :=
  let (c,freed) := c.trim now
  match c.lookup key with
  | some entry =>
      let c := c.touch key
      if r.clean entry then some (.hit entry.id,c,freed)
      else match r.upload entry.id with
        | some cmd =>
            some (.hit entry.id,c.modify key (fun e => { e with dirty := false }),freed ++ [cmd])
        | none => some (.hit entry.id,c,freed)
  | none =>
      match c.mintId with
      | none => none
      | some (id,c) =>
          if r.imported then
            some (.miss ⟨id,true,false,false,c.trimmedFlip⟩,c,freed ++ [r.create id])
          else match r.upload id with
            | some cmd =>
                some (.miss ⟨id,false,false,false,c.trimmedFlip⟩,c,freed ++ [r.create id,cmd])
            | none => some (.miss ⟨id,false,false,true,c.trimmedFlip⟩,c,freed ++ [r.create id])

/-- The rest of a first use: watch the range, count its bytes, record the entry. -/
def acquireFinish (c : ResourceCache) (key : ResourceKey) (r : Recipe) :
    Acquired → ResourceCache × List WatchOp
  | .hit _ => (c,[])
  | .miss entry =>
      ({ c with
          entries := (key,entry) :: c.entries
          bufferBytes := if r.account then saturatingAdd c.bufferBytes key.size else c.bufferBytes },
        if r.watch then [.watch key.addr key.size] else [])

def acquire (c : ResourceCache) (now : ℕ) (key : ResourceKey) (r : Recipe) :
    Option (ℕ × ResourceCache × List ResourceCmd × List WatchOp) :=
  match c.acquireRead now key r with
  | none => none
  | some (a,c,cmds) =>
      let (c,watches) := c.acquireFinish key r a
      some (a.id,c,cmds,watches)

section Get

variable (pol : CachePolicy) (detile : Bytes → SurfaceLayout → Option Bytes)
  (read : ℕ → ℕ → Option Bytes)

/-- `emit_upload` -/
def emitUpload (key : ResourceKey) (id : ℕ) : Option ResourceCmd :=
  (read key.addr key.size).map (.uploadBuffer id 0)

/-- `emit_image_upload` -/
def emitImageUpload (key : ResourceKey) (surface : SurfaceLayout) (id : ℕ) : Option ResourceCmd :=
  (read key.addr key.size).bind fun bytes => (detile bytes surface).map (.uploadImage id)

def importable (key : ResourceKey) : Bool :=
  let coherence := pol.coherence key.addr key.size
  coherence == .zeroCopyCandidate && pol.canImport key.addr key.size coherence

def bufferRecipe (key : ResourceKey) : Recipe where
  clean := fun e => e.imported || (!e.dirty && watchPays key.layout)
  upload := emitUpload read key
  imported := importable pol key
  create := fun id =>
    if importable pol key then .importBuffer id key.addr key.size else .createBuffer id key.size
  watch := watchPays key.layout
  account := isLinearBuffer key.layout && !importable pol key

def textureRecipe (key : ResourceKey) (surface : SurfaceLayout) (format : TextureFormat) :
    Recipe where
  clean := fun e => !e.dirty
  upload := emitImageUpload detile read key surface
  imported := false
  create := fun id => .createImage id surface.width surface.height format
  watch := true
  account := false

def get (c : ResourceCache) (now : ℕ) (key : ResourceKey) :=
  c.acquire now key (bufferRecipe pol read key)

def getTexture (c : ResourceCache) (now : ℕ) (key : ResourceKey) (surface : SurfaceLayout)
    (format : TextureFormat) :=
  c.acquire now key (textureRecipe detile read key surface format)

end Get

/-- A render target is created once, never uploaded and never watched. -/
def getRenderTarget (c : ResourceCache) (key : ResourceKey) (surface : SurfaceLayout)
    (format : ColorFormat) : Option (ℕ × ResourceCache × List ResourceCmd) :=
  match c.lookup key with
  | some entry =>
      some (entry.id,c.touch key,[])
  | none =>
      match c.mintId with
      | none => none
      | some (id,c) =>
          some (id,{ c with entries := (key,⟨id,false,true,false,c.trimmedFlip⟩) :: c.entries },
            [.createRenderTarget id surface.width surface.height format])

def getSampler (c : ResourceCache) (desc : SamplerDesc) :
    Option (ℕ × ResourceCache × List ResourceCmd) :=
  match c.samplers.lookup desc with
  | some id => some (id,c,[])
  | none =>
      match c.mintId with
      | none => none
      | some (id,c) =>
          some (id,{ c with samplers := (desc,id) :: c.samplers },[.createSampler id desc])

/-- The 1x1 opaque white image bound in place of a degenerate texture. -/
def getWhiteDummy (c : ResourceCache) : Option (ℕ × ResourceCache × List ResourceCmd) :=
  match c.whiteDummy with
  | some id => some (id,c,[])
  | none =>
      match c.mintId with
      | none => none
      | some (id,c) =>
          some (id,{ c with whiteDummy := some id },
            [.createImage id 1 1 .r8g8b8a8Unorm,.uploadImage id [0xff,0xff,0xff,0xff]])

/-- Mark the entries whose range `hit` says was written; imported entries and render
targets never re-upload. -/
def markDirty (c : ResourceCache) (hit : ResourceKey → Bool) : ResourceCache :=
  { c with entries := c.entries.map fun p =>
      if !p.2.imported && !p.2.isRt && hit p.1 then (p.1,{ p.2 with dirty := true }) else p }

def applyDirty (c : ResourceCache) (dirtied : List (ℕ × ℕ)) : ResourceCache :=
  c.markDirty fun key => dirtied.any fun r => rangesOverlap key.addr key.size r.1 r.2

def invalidateRange (c : ResourceCache) (addr size : ℕ) : ResourceCache :=
  c.markDirty fun key => rangesOverlap key.addr key.size addr size

/-- The loop of `free_range` over the keys it collected. -/
def freeKeys (c : ResourceCache) :
    List ResourceKey → ResourceCache × List ResourceCmd × List WatchOp
  | [] => (c,[],[])
  | key :: rest =>
      match c.lookup key with
      | none => freeKeys c rest
      | some entry =>
          let bytes := if isLinearBuffer key.layout && !entry.imported then c.bufferBytes-key.size
            else c.bufferBytes
          let r := freeKeys { c.remove key with bufferBytes := bytes } rest
          let unwatched := if watchPays key.layout && !entry.isRt then
            [WatchOp.unwatch key.addr key.size] else []
          (r.1,.freeResource entry.id :: r.2.1,unwatched ++ r.2.2)

def freeRange (c : ResourceCache) (addr size : ℕ) :
    ResourceCache × List ResourceCmd × List WatchOp :=
  c.freeKeys ((c.entries.map (·.1)).filter fun k => rangesOverlap k.addr k.size addr size)

end ResourceCache

end Unemups4.Gnm
