import Unemups4.Submit

/-! The display thread's replay of a submission: resource commands act at once, draws are
recorded as passes over the binds accumulated since the last draw and executed together
after the walk. Resource ids are never reused, so an id also names its host object. -/
namespace Unemups4.Gnm

structure VertexBinding where
  slot : ℕ
  buffer : ℕ
  stride : ℕ
  deriving DecidableEq, Repr

structure StorageBind where
  slot : Slot
  buffer : ℕ
  numRecords : ℕ
  stride : ℕ
  dstSel : ℕ
  format : ℕ
  pcOffset : ℕ
  deriving DecidableEq, Repr

structure ConstBind where
  slot : Slot
  buffer : ℕ
  deriving DecidableEq, Repr

structure TextureBind where
  slot : Slot
  image : ℕ
  sampler : ℕ
  deriving DecidableEq, Repr

inductive DrawCall where
  | auto (vertexCount : ℕ)
  | indexed (buffer indexCount : ℕ) (indexType : IndexType)
  deriving DecidableEq, Repr

/-- What the next draw will record. -/
structure Binds where
  pipeline : Option HostPipeline
  vertexBuffers : List VertexBinding
  storageBinds : List StorageBind
  constBinds : List ConstBind
  textureBinds : List TextureBind
  viewport : Option ViewportRect
  scissor : Option ScissorRect
  currentRt : Option ℕ
  deriving DecidableEq, Repr

/-- A recorded draw; no target means the videoout. -/
structure RecordedPass where
  target : Option ℕ
  pipeline : HostPipeline
  draw : DrawCall
  vertexBuffers : List VertexBinding
  storageBinds : List StorageBind
  constBinds : List ConstBind
  textureBinds : List TextureBind
  viewport : Option ViewportRect
  scissor : Option ScissorRect
  deriving DecidableEq, Repr

/-- The host objects by id. A freed buffer is kept until the next list, as an earlier draw
of this one may still read it. -/
structure Display where
  pipelines : ℕ → Option HostPipeline
  live : Backend
  retired : Backend

namespace Display

def held (d : Display) (id : ℕ) : Option Copy := d.live id <|> d.retired id

def apply (d : Display) (cmd : ResourceCmd) : Display :=
  { d with
    live := d.live.apply cmd
    retired := match cmd with
      | .freeResource id => Function.update d.retired id (d.held id)
      | _ => d.retired }

/-- What a draw reads from the buffer or image of an id. -/
def shows (d : Display) (id : ℕ) : Option Bytes := (d.held id).bind Copy.data

def isBuffer (d : Display) (id : ℕ) : Bool :=
  match d.live id with
  | some (.buffer _) => true
  | _ => false

/-- A sampled image, which survives its free, or a render target. -/
def isSampled (d : Display) (id : ℕ) : Bool :=
  match d.held id with
  | some (.image _) => true
  | some .target => (d.live id).isSome
  | _ => false

def isSampler (d : Display) (id : ℕ) : Bool := d.live id == some .sampler

end Display

/-- Where the binds look an id up. -/
structure Lookups where
  pipeline : ℕ → Option HostPipeline
  buffer : ℕ → Option ℕ
  view : ℕ → Option ℕ
  sampler : ℕ → Option ℕ

/-- The lookups of a display, which names an object by its id. -/
def Display.lookups (d : Display) : Lookups where
  pipeline := d.pipelines
  buffer id := if d.isBuffer id then some id else none
  view id := if d.isSampled id then some id else none
  sampler id := if d.isSampler id then some id else none

structure Replay where
  display : Display
  binds : Binds
  passes : List RecordedPass

namespace Binds

def empty : Binds := ⟨none,[],[],[],[],none,none,none⟩

/-- After a draw everything but the pipeline starts over. -/
def clear (b : Binds) : Binds := { empty with pipeline := b.pipeline }

/-- `draw_guards_ok`: every binding the pipeline declares has arrived. -/
def guardsOk (b : Binds) (p : HostPipeline) : Bool :=
  p.constStorage.toList.length+p.constStorageFragment.toList.length ≤ b.constBinds.length &&
    p.vertexStorage.length ≤ b.storageBinds.length && p.textures.length ≤ b.textureBinds.length

/-- The pass a draw records, unless it is dropped. -/
def record (b : Binds) (draw : DrawCall) : Option RecordedPass :=
  match b.pipeline with
  | none => none
  | some p => if b.guardsOk p then
      some ⟨b.currentRt,p,draw,b.vertexBuffers,b.storageBinds,b.constBinds,b.textureBinds,b.viewport,
        b.scissor⟩ else none

/-- A second bind of a texture binding replaces the first. -/
def bindTexture (b : Binds) (t : TextureBind) : Binds :=
  { b with textureBinds :=
      if b.textureBinds.any (·.slot.binding = t.slot.binding) then
        b.textureBinds.map fun x => if x.slot.binding = t.slot.binding then t else x
      else b.textureBinds ++ [t] }

/-- The bind arms of `replay_command_list`, which keep the object found under an id. -/
def accept (l : Lookups) (b : Binds) : BackendCmd → Binds
  | .bindPipeline id => { b with pipeline := l.pipeline id }
  | .bindVertexBuffer slot id stride =>
      match l.buffer id with
      | some o => { b with vertexBuffers := b.vertexBuffers ++ [⟨slot,o,stride⟩] }
      | none => b
  | .bindStorageBuffer slot id numRecords stride dstSel format pcOffset =>
      match l.buffer id with
      | some o => { b with storageBinds :=
          b.storageBinds ++ [⟨slot,o,numRecords,stride,dstSel,format,pcOffset⟩] }
      | none => b
  | .bindConstBuffer slot id =>
      match l.buffer id with
      | some o => { b with constBinds := b.constBinds ++ [⟨slot,o⟩] }
      | none => b
  | .bindTexture slot imageId samplerId =>
      match l.view imageId, l.sampler samplerId with
      | some view, some sampler => b.bindTexture ⟨slot,view,sampler⟩
      | _, _ => b
  | .setRenderTarget id => { b with currentRt := some id }
  | .setViewport rect => { b with viewport := some rect }
  | .setScissor rect => { b with scissor := some rect }
  | .drawAuto _ | .drawIndexed _ _ _ => b.clear
  | .resource _ | .createPipeline _ _ => b

end Binds

namespace Replay

def start (d : Display) : Replay := ⟨d,.empty,[]⟩

/-- The pass that a command records, if it is a draw. -/
def closes (r : Replay) : BackendCmd → Option RecordedPass
  | .drawAuto count => r.binds.record (.auto count)
  | .drawIndexed id count t =>
      if r.display.isBuffer id then r.binds.record (.indexed id count t) else none
  | _ => none

def isDraw : BackendCmd → Bool
  | .drawAuto _ | .drawIndexed _ _ _ => true
  | _ => false

/-- The replay keeps ids for the objects. -/
def bind (d : Display) (b : Binds) (cmd : BackendCmd) : Binds := b.accept d.lookups cmd

section Bind

variable (d : Display) (b : Binds)

@[simp] lemma bind_vertexBuffer (slot id stride : ℕ) :
    bind d b (.bindVertexBuffer slot id stride) =
      if d.isBuffer id then { b with vertexBuffers := b.vertexBuffers ++ [⟨slot,id,stride⟩] }
      else b := by
  simp only [bind, Binds.accept, Display.lookups]
  split_ifs <;> rfl

@[simp] lemma bind_storageBuffer (slot : Slot) (id numRecords stride dstSel format pcOffset : ℕ) :
    bind d b (.bindStorageBuffer slot id numRecords stride dstSel format pcOffset) =
      if d.isBuffer id then { b with storageBinds :=
        b.storageBinds ++ [⟨slot,id,numRecords,stride,dstSel,format,pcOffset⟩] } else b := by
  simp only [bind, Binds.accept, Display.lookups]
  split_ifs <;> rfl

@[simp] lemma bind_constBuffer (slot : Slot) (id : ℕ) :
    bind d b (.bindConstBuffer slot id) =
      if d.isBuffer id then { b with constBinds := b.constBinds ++ [⟨slot,id⟩] } else b := by
  simp only [bind, Binds.accept, Display.lookups]
  split_ifs <;> rfl

@[simp] lemma bind_texture (slot : Slot) (imageId samplerId : ℕ) :
    bind d b (.bindTexture slot imageId samplerId) =
      if d.isSampled imageId && d.isSampler samplerId then b.bindTexture ⟨slot,imageId,samplerId⟩
      else b := by
  simp only [bind, Binds.accept, Display.lookups]
  by_cases himage : d.isSampled imageId <;> by_cases hsampler : d.isSampler samplerId <;>
    simp [himage, hsampler]

end Bind

/-- A second creation of a pipeline id changes nothing. -/
def update (d : Display) : BackendCmd → Display
  | .resource cmd => d.apply cmd
  | .createPipeline id p =>
      if (d.pipelines id).isSome then d
      else { d with pipelines := Function.update d.pipelines id (some p) }
  | _ => d

def step (r : Replay) (cmd : BackendCmd) : Replay where
  display := update r.display cmd
  binds := bind r.display r.binds cmd
  passes := r.passes ++ (r.closes cmd).toList

/-- The walk of `replay_command_list`. -/
def run (r : Replay) (cmds : List BackendCmd) : Replay := cmds.foldl step r

lemma run_append (r : Replay) (as bs : List BackendCmd) : r.run (as ++ bs) = (r.run as).run bs :=
  List.foldl_append

lemma run_cons (r : Replay) (a : BackendCmd) (as : List BackendCmd) :
    r.run (a :: as) = (r.step a).run as := rfl

end Replay

/-- `replay_command_list`: the passes to execute, over the host objects at the end. -/
def replayCommandList (d : Display) (cmds : List BackendCmd) : Replay := (Replay.start d).run cmds

/-- The buffers and images a draw reads. -/
def RecordedPass.reads (p : RecordedPass) : List ℕ :=
  p.vertexBuffers.map (·.buffer) ++ p.storageBinds.map (·.buffer) ++ p.constBinds.map (·.buffer) ++
    p.textureBinds.map (·.image) ++ match p.draw with
      | .auto _ => []
      | .indexed buffer _ _ => [buffer]

end Unemups4.Gnm
