import Unemups4.CacheDiscipline

/-! The cache beside the guest threads: guest writes fall between the steps of a lookup,
a dirty source reports those that hit a watched byte, and the display thread holds the
copies the emitted commands made. -/
namespace Unemups4.Gnm

/-- What the display thread holds under an id. -/
inductive Copy where
  | buffer (data : Bytes)
  | image (texels : Option Bytes)
  | imported (addr size : ℕ)
  | sampler
  | target
  deriving DecidableEq, Repr

abbrev Backend := ℕ → Option Copy

def bytesAt (bytes : ℕ → UInt8) (addr size : ℕ) : Bytes :=
  (List.range size).map fun i => bytes (addr+i)

/-- An imported buffer reads the guest pages themselves. -/
def Copy.contents (bytes : ℕ → UInt8) : Copy → Option Bytes
  | buffer data => some data
  | image texels => texels
  | imported addr size => some (bytesAt bytes addr size)
  | sampler | target => none

def splice (offset : ℕ) (data old : Bytes) : Bytes :=
  old.take offset ++ data ++ old.drop (offset+data.length)

/-- An upload past the end of a buffer is dropped; one to an image replaces it. -/
def Copy.upload (offset : ℕ) (data : Bytes) : Copy → Copy
  | buffer old =>
      if data = [] ∨ offset+data.length > max old.length 1 then buffer old
      else buffer (splice offset data old)
  | image _ => image (some data)
  | copy => copy

/-- An upload of the whole buffer is all it holds. -/
lemma Copy.upload_whole {data old : Bytes} (h : data.length = old.length) :
    (buffer old).upload 0 data = buffer data := by
  by_cases hnil : data = []
  · subst hnil
    have hold : old = [] := List.length_eq_zero_iff.mp h.symm
    simp [upload, hold]
  · simp [upload, splice, hnil, h]

/-- The bytes a copy holds of its own. -/
def Copy.data : Copy → Option Bytes
  | buffer data => some data
  | image texels => texels
  | _ => none

namespace Backend

def apply (b : Backend) : ResourceCmd → Backend
  | .createBuffer id size => Function.update b id (some (.buffer (List.replicate size 0)))
  | .uploadBuffer id offset data => Function.update b id ((b id).map (.upload offset data))
  | .importBuffer id addr size => Function.update b id (some (.imported addr size))
  | .freeResource id => Function.update b id none
  | .createImage id _ _ _ => Function.update b id (some (.image none))
  | .uploadImage id data => Function.update b id ((b id).map (.upload 0 data))
  | .createSampler id _ => Function.update b id (some .sampler)
  | .createRenderTarget id _ _ _ => Function.update b id (some .target)

def replay (b : Backend) (cmds : List ResourceCmd) : Backend := cmds.foldl apply b

lemma apply_of_ne (b : Backend) {cmd : ResourceCmd} {id : ℕ} (h : cmd.event.id ≠ id) :
    b.apply cmd id = b id := by
  cases cmd <;> exact Function.update_of_ne (Ne.symm h) _ _

lemma replay_of_ne (b : Backend) {cmds : List ResourceCmd} {id : ℕ}
    (h : ∀ cmd ∈ cmds, cmd.event.id ≠ id) : b.replay cmds id = b id := by
  induction cmds generalizing b with
  | nil => rfl
  | cons cmd cmds ih =>
    have hrest := ih (b.apply cmd) fun c hc => h c (List.mem_cons_of_mem _ hc)
    rw [← b.apply_of_ne (h cmd (by simp)), ← hrest]
    rfl

lemma replay_append (b : Backend) (cmds cmds' : List ResourceCmd) :
    b.replay (cmds ++ cmds') = (b.replay cmds).replay cmds' := List.foldl_append

end Backend

/-- The command does all it says: an upload leaves just its bytes, a creation takes an id
nothing is held under. -/
def ResourceCmd.Whole (b : Backend) : ResourceCmd → Prop
  | .uploadBuffer id offset data =>
      ((b id).map (.upload offset data)).bind Copy.data = some data
  | .uploadImage id data => ((b id).map (.upload 0 data)).bind Copy.data = some data
  | .freeResource _ => True
  | .createBuffer id _ | .importBuffer id _ _ | .createImage id _ _ _ | .createSampler id _
  | .createRenderTarget id _ _ _ => b id = none

structure Machine where
  cache : ResourceCache
  bytes : ℕ → UInt8
  readable : ℕ → ℕ → Bool
  watched : List (ℕ × ℕ)
  log : List (ℕ × ℕ)
  backend : Backend
  pending : Option (ResourceKey × ResourceCache.Acquired)

/-- The first two act on guest memory, from any guest thread at any time; the others are
the steps of the one thread that owns the cache. -/
inductive Action where
  | write (addr : ℕ) (data : Bytes)
  | remap (readable : ℕ → ℕ → Bool)
  | lookup (now : ℕ) (key : ResourceKey) (format : TextureFormat)
  | finish
  | drain
  | invalidateRange (addr size : ℕ)
  | freeRange (addr size : ℕ)
  | getRenderTarget (addr size : ℕ) (format : SurfaceFormat) (surface : SurfaceLayout)
      (color : ColorFormat)
  | getSampler (desc : SamplerDesc)
  | getWhiteDummy
  | rehash (entries : List (ResourceKey × Entry))

namespace Machine

def boot (bytes : ℕ → UInt8) (readable : ℕ → ℕ → Bool) : Machine :=
  ⟨.new,bytes,readable,[],[],fun _ => none,none⟩

variable (pol : CachePolicy) (detile : Bytes → SurfaceLayout → Option Bytes)

def read (m : Machine) (addr size : ℕ) : Option Bytes :=
  if m.readable addr size then some (bytesAt m.bytes addr size) else none

/-- A buffer is fetched by `get`, a texture by `get_texture`; a render target by neither. -/
def recipe (m : Machine) (key : ResourceKey) (format : TextureFormat) :
    Option ResourceCache.Recipe :=
  match key.layout with
  | .vertexBuf | .indexBuf | .constBuf => some (ResourceCache.bufferRecipe pol m.read key)
  | .texture _ surface => some (ResourceCache.textureRecipe detile m.read key surface format)
  | .renderTarget _ _ => none

def isWatched (m : Machine) (a : ℕ) : Bool := m.watched.any fun r => r.1 ≤ a && a < r.1+r.2

/-- The dirty source is exact: it reports the written bytes that are watched. -/
def reported (m : Machine) (addr len : ℕ) : List (ℕ × ℕ) :=
  ((List.range len).filter fun i => m.isWatched (addr+i)).map fun i => (addr+i,1)

def writeAt (bytes : ℕ → UInt8) (addr : ℕ) (data : Bytes) (a : ℕ) : UInt8 :=
  if addr ≤ a then data.getD (a-addr) (bytes a) else bytes a

/-- A write that spares a range leaves its bytes. -/
lemma bytesAt_writeAt_spared {bytes : ℕ → UInt8} {addr a n : ℕ} {data : Bytes}
    (h : ∀ i < data.length, a ≤ addr+i → a+n ≤ addr+i) :
    bytesAt (writeAt bytes addr data) a n = bytesAt bytes a n := by
  refine List.map_congr_left fun i hi => ?_
  unfold writeAt
  split_ifs with hle
  · rw [List.getD_eq_default]
    by_contra hlt
    have hspared := h (a+i-addr) (by omega) (by omega)
    have := List.mem_range.mp hi
    omega
  · rfl

def applyWatch (watched : List (ℕ × ℕ)) : WatchOp → List (ℕ × ℕ)
  | .watch addr size => if (addr,size) ∈ watched then watched else watched ++ [(addr,size)]
  | .unwatch addr size => watched.filter fun r => r ≠ (addr,size)

/-- The guest arena ends below the last address: a write past it faults. The cache thread
starts nothing while a lookup is in flight. -/
def step (m : Machine) : Action → Option Machine
  | .write addr data =>
      if addr+data.length ≤ u64Max then
        some { m with
          bytes := writeAt m.bytes addr data
          log := m.log ++ m.reported addr data.length }
      else none
  | .remap readable => some { m with readable := readable }
  | .lookup now key format =>
      match m.pending, m.recipe pol detile key format with
      | none, some r =>
          (m.cache.acquireRead now key r).map fun (a,c,cmds) =>
            { m with cache := c, backend := m.backend.replay cmds, pending := some (key,a) }
      | _, _ => none
  | .finish =>
      match m.pending with
      | none => none
      | some (key,a) =>
          (m.recipe pol detile key .r8g8b8a8Unorm).map fun r =>
            let (c,ws) := m.cache.acquireFinish key r a
            { m with cache := c, watched := ws.foldl applyWatch m.watched, pending := none }
  | .drain =>
      if m.pending.isSome then none
      else some { m with cache := m.cache.applyDirty m.log, log := [] }
  | .invalidateRange addr size =>
      if m.pending.isSome then none
      else some { m with cache := m.cache.invalidateRange addr size }
  | .freeRange addr size =>
      if m.pending.isSome then none
      else
        let (c,cmds,ws) := m.cache.freeRange addr size
        some { m with
          cache := c
          backend := m.backend.replay cmds
          watched := ws.foldl applyWatch m.watched }
  | .getRenderTarget addr size format surface color =>
      if m.pending.isSome then none
      else
        (m.cache.getRenderTarget ⟨addr,size,.renderTarget format surface⟩ surface color).map
          fun (_,c,cmds) => { m with cache := c, backend := m.backend.replay cmds }
  | .getSampler desc =>
      if m.pending.isSome then none
      else (m.cache.getSampler desc).map
        fun (_,c,cmds) => { m with cache := c, backend := m.backend.replay cmds }
  | .getWhiteDummy =>
      if m.pending.isSome then none
      else m.cache.getWhiteDummy.map
        fun (_,c,cmds) => { m with cache := c, backend := m.backend.replay cmds }
  | .rehash entries =>
      if m.pending.isNone ∧ entries.Perm m.cache.entries then
        some { m with cache := { m.cache with entries := entries } }
      else none

def run (m : Machine) : List Action → Option Machine
  | [] => some m
  | a :: as => (m.step pol detile a).bind fun m' => m'.run as

/-- The guest bytes of a key as its backend copy should show them. -/
def view (bytes : ℕ → UInt8) (key : ResourceKey) : Option Bytes :=
  match key.layout with
  | .texture _ surface => detile (bytesAt bytes key.addr key.size) surface
  | _ => some (bytesAt bytes key.addr key.size)

end Machine

end Unemups4.Gnm
