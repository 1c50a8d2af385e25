import Unemups4.DisplaySync
import Unemups4.Readback
import Unemups4.VideoOut

/-! The backend's side of a submission: its draws recorded as render passes over the videoout
image or a render target, their fence, and the copies of render targets to the host. -/
namespace Unemups4.Gpu
open Gnm (Bytes RecordedPass)

inductive ImageLayout where
  | undefined
  | colorAttachmentOptimal
  | shaderReadOnlyOptimal
  | transferSrcOptimal
  deriving DecidableEq, Repr

inductive LoadOp where
  | clear
  | load
  deriving DecidableEq, Repr

/-- The color attachment of a render pass. -/
structure Attachment where
  loadOp : LoadOp
  initialLayout : ImageLayout
  finalLayout : ImageLayout
  deriving DecidableEq, Repr

structure Barrier where
  oldLayout : ImageLayout
  newLayout : ImageLayout
  deriving DecidableEq, Repr

inductive PassTarget where
  | videoout
  | renderTarget (id : ℕ)
  deriving DecidableEq, Repr

def PassTarget.of : Option ℕ → PassTarget
  | none => videoout
  | some id => renderTarget id

/-- What a draw puts into the command buffer of its submit. -/
structure PassCmds where
  target : PassTarget
  before : List Barrier
  attachment : Attachment
  after : List Barrier
  deriving DecidableEq, Repr

/-- The layout that they leave the image in. -/
def PassCmds.left (c : PassCmds) : ImageLayout :=
  (c.after.getLast?.map (·.newLayout)).getD c.attachment.finalLayout

def createEmbeddedTarget : Attachment := ⟨.clear,.undefined,.shaderReadOnlyOptimal⟩

def createVideooutLoadTarget : Attachment :=
  ⟨.load,.shaderReadOnlyOptimal,.shaderReadOnlyOptimal⟩

def createRtTarget (initialLayout : ImageLayout) (firstUse : Bool) : Attachment :=
  if firstUse then ⟨.clear,.undefined,.colorAttachmentOptimal⟩
  else ⟨.load,initialLayout,.colorAttachmentOptimal⟩

/-- What a bounded wait for a submit gives. On a timeout the device has got through some of its
passes, or still will before it comes to a later submit. -/
inductive FenceWait where
  | signalled
  | timedOut (executed : ℕ)
  deriving DecidableEq, Repr

def FenceWait.completes : FenceWait → Bool
  | signalled => true
  | timedOut _ => false

def FenceWait.executes : FenceWait → ℕ → Bool
  | signalled, _ => true
  | timedOut executed, i => i < executed

/-- What becomes of a copy of a render target into a staging buffer. -/
inductive HostCopy where
  | notSubmitted
  | timedOut
  | unmapped
  | pixels (linear : Bytes)
  deriving DecidableEq, Repr

/-- The barriers around the copy. -/
def copyBarriers : List Barrier :=
  [⟨.shaderReadOnlyOptimal,.transferSrcOptimal⟩,⟨.transferSrcOptimal,.shaderReadOnlyOptimal⟩]

/-- What is done with the pixels of a copy. -/
inductive CopyUse where
  | dropped
  | guestWrite (addr : ℕ) (data : Bytes)
  | png (path : String) (w h : ℕ) (linear : Bytes)
  deriving DecidableEq, Repr

/-- What the device is given, with what became of it. -/
inductive Event where
  | created (id : ℕ)
  | freed (id : ℕ)
  | pass (cmds : PassCmds) (completes executes : Bool)
  | copied (id : ℕ) (barriers : List Barrier) (completes : Bool) (use : CopyUse)
  | flipped
  | presented (copiesGuest : Bool)
  deriving DecidableEq, Repr

structure CacheRenderTarget where
  width : ℕ
  height : ℕ
  currentLayout : ImageLayout
  deriving DecidableEq, Repr

/-- The log, newest first, is read by nothing. -/
structure AshBackend where
  video : VideoOut
  display : Gnm.Display
  renderTargets : ℕ → Option CacheRenderTarget
  readbackRefused : Finset ℕ
  drawTarget : Bool
  videooutClearedThisFrame : Bool
  log : List Event

namespace AshBackend

def setLayout (b : AshBackend) (layout : ImageLayout) (id : ℕ) : AshBackend :=
  { b with
    renderTargets := Function.update b.renderTargets id
      ((b.renderTargets id).map fun rt => { rt with currentLayout := layout }) }

def rollBack (b : AshBackend) (touchedRts : List ℕ) : AshBackend :=
  touchedRts.foldl (setLayout · .undefined) b

/-- `allocated` tells whether the device has the memory. -/
def createRenderTarget (b : AshBackend) (id width height : ℕ) (allocated : Bool) : AshBackend :=
  if (b.renderTargets id).isSome ∨ ¬allocated then b
  else { b with
    renderTargets := Function.update b.renderTargets id (some ⟨width,height,.undefined⟩)
    log := .created id :: b.log }

def freeResource (b : AshBackend) (id : ℕ) : AshBackend :=
  { b with
    video := b.video.freeResource id
    renderTargets := Function.update b.renderTargets id none
    readbackRefused := b.readbackRefused.erase id
    log := if (b.renderTargets id).isSome then .freed id :: b.log else b.log }

/-- An import that the device refuses is a panic. -/
def replayImport (host : HostMemory) (b : AshBackend) (id addr size : ℕ) (imports : Bool) :
    Option AshBackend :=
  match host.getHostPtr addr with
  | none => none
  | some hostPtr =>
      if imports then some { b with video := b.video.tryImportHostRange id hostPtr size true }
      else none

/-- A new pipeline needs the videoout target. -/
def createPipeline (b : AshBackend) (d : Gnm.Display) (id : ℕ) : AshBackend :=
  if (d.pipelines id).isSome then b else { b with drawTarget := true }

end AshBackend

/-- While passes are recorded: the layouts advance ahead of the device. -/
structure Recording where
  backend : AshBackend
  touchedRts : List ℕ
  videooutDrawn : Bool
  videooutSeen : Bool
  recorded : List PassCmds

namespace Recording

def start (b : AshBackend) : Recording := ⟨b,[],false,false,[]⟩

def recordVideoout (r : Recording) : Recording :=
  if ¬r.backend.drawTarget then r
  else
    let cmds : PassCmds :=
      if r.videooutSeen ∨ r.backend.videooutClearedThisFrame then
        ⟨.videoout,[⟨.shaderReadOnlyOptimal,.shaderReadOnlyOptimal⟩],createVideooutLoadTarget,[]⟩
      else ⟨.videoout,[],createEmbeddedTarget,[]⟩
    { r with
      backend := { r.backend with videooutClearedThisFrame := true }
      videooutDrawn := true
      videooutSeen := true
      recorded := cmds :: r.recorded }

/-- A pass into a target that does not exist is dropped. -/
def recordRenderTarget (r : Recording) (id : ℕ) : Recording :=
  match r.backend.renderTargets id with
  | none => r
  | some rt =>
      let firstUse : Bool := rt.currentLayout = .undefined
      let cmds : PassCmds := ⟨.renderTarget id,[],createRtTarget rt.currentLayout firstUse,
        [⟨.colorAttachmentOptimal,.shaderReadOnlyOptimal⟩]⟩
      { r with
        backend := r.backend.setLayout .shaderReadOnlyOptimal id
        touchedRts := r.touchedRts ++ [id]
        recorded := cmds :: r.recorded }

def recordPass (r : Recording) (pass : RecordedPass) : Recording :=
  match PassTarget.of pass.target with
  | .videoout => r.recordVideoout
  | .renderTarget id => r.recordRenderTarget id

end Recording

/-- The passes of a submit in the log, newest first as they are recorded. -/
def FenceWait.events (wait : FenceWait) : List PassCmds → List Event
  | [] => []
  | cmds :: older => .pass cmds wait.completes (wait.executes older.length) :: wait.events older

/-- After a timeout no layout that the submit was to reach is relied on, nor its clear of the
videoout image. -/
def Recording.finish (r : Recording) (wait : FenceWait) (videooutClearedAtEntry : Bool) :
    AshBackend :=
  let b := { r.backend with log := wait.events r.recorded ++ r.backend.log }
  match wait with
  | .signalled => b
  | .timedOut _ =>
      let b := b.rollBack r.touchedRts
      if r.videooutDrawn ∧ ¬videooutClearedAtEntry then
        { b with videooutClearedThisFrame := false }
      else b

namespace AshBackend

/-- `record_passes`; it tells whether a videoout pass was recorded. -/
def recordPasses (b : AshBackend) (passes : List RecordedPass) (wait : FenceWait) :
    AshBackend × Bool :=
  let r := passes.foldl Recording.recordPass (.start b)
  (r.finish wait b.videooutClearedThisFrame,r.videooutDrawn)

/-- `copy_rt_to_host`: the pixels, and what the device saw of it. -/
def copyRtToHost (b : AshBackend) (id : ℕ) (copy : HostCopy) (use : Bytes → CopyUse) :
    AshBackend :=
  match copy with
  | .notSubmitted => b
  | .timedOut => { b with log := .copied id copyBarriers false .dropped :: b.log }
  | .unmapped => { b with log := .copied id copyBarriers true .dropped :: b.log }
  | .pixels linear => { b with log := .copied id copyBarriers true (use linear) :: b.log }

end AshBackend

/-- A render target to be read back, with what will become of its copy. -/
structure ReadbackRequest where
  id : ℕ
  addr : ℕ
  size : ℕ
  pitch : ℕ
  tiling : Tiling
  copy : HostCopy
  deriving DecidableEq, Repr

structure RtDump where
  id : ℕ
  path : String
  copy : HostCopy
  deriving DecidableEq, Repr

namespace AshBackend

/-- No more is written than the range that was asked for. -/
def readback (b : AshBackend) (q : ReadbackRequest) : AshBackend :=
  match b.renderTargets q.id with
  | none => b
  | some rt =>
      if rt.currentLayout ≠ .shaderReadOnlyOptimal then b
      else
        match guestSurfaceLayout rt.width rt.height q.pitch q.tiling with
        | none => { b with readbackRefused := insert q.id b.readbackRefused }
        | some surface => b.copyRtToHost q.id q.copy fun linear =>
            match packGuestSurface linear rt.width rt.height surface with
            | .error _ => .dropped
            | .ok tiled => .guestWrite q.addr (tiled.take (min q.size tiled.length))

def dumpRenderTargetPng (b : AshBackend) (q : RtDump) : AshBackend :=
  match b.renderTargets q.id with
  | none => b
  | some rt =>
      if rt.currentLayout ≠ .shaderReadOnlyOptimal then b
      else b.copyRtToHost q.id q.copy (.png q.path rt.width rt.height)

end AshBackend

/-- A command of a list with the device's answer to it. -/
inductive RenderCmd where
  | backend (cmd : Gnm.BackendCmd) (granted : Bool)
  | readbackRenderTarget (q : ReadbackRequest)
  | dumpRenderTargetPng (q : RtDump)

/-- A creation that the device has no memory for is skipped. -/
def skipped (cmd : Gnm.BackendCmd) (granted : Bool) : Bool :=
  match cmd with
  | .resource (.createBuffer _ _) | .resource (.createImage _ _ _ _)
  | .resource (.createRenderTarget _ _ _ _) => !granted
  | _ => false

structure ListWalk where
  backend : AshBackend
  replay : Gnm.Replay
  readbacks : List ReadbackRequest
  rtDumps : List RtDump

namespace ListWalk

def start (b : AshBackend) : ListWalk := ⟨b,.start b.display.retire,[],[]⟩

/-- What a command does to the backend's own maps. -/
def apply (host : HostMemory) (w : ListWalk) (granted : Bool) :
    Gnm.BackendCmd → Option AshBackend
  | .resource (.createRenderTarget id width height _) =>
      some (w.backend.createRenderTarget id width height granted)
  | .resource (.freeResource id) => some (w.backend.freeResource id)
  | .resource (.importBuffer id addr size) =>
      w.backend.replayImport host id addr size granted
  | .createPipeline id _ => some (w.backend.createPipeline w.replay.display id)
  | _ => some w.backend

/-- Copies wait until the passes are recorded. -/
def step (host : HostMemory) (w : ListWalk) : RenderCmd → Option ListWalk
  | .backend cmd granted => do
      let b ← w.apply host granted cmd
      return { w with
        backend := b
        replay := if skipped cmd granted then w.replay else w.replay.step cmd }
  | .readbackRenderTarget q => some { w with readbacks := w.readbacks ++ [q] }
  | .dumpRenderTargetPng q => some { w with rtDumps := w.rtDumps ++ [q] }

end ListWalk

namespace AshBackend

/-- `replay_command_list`. -/
def runCommandList (host : HostMemory) (b : AshBackend) (cmds : List RenderCmd)
    (wait : FenceWait) : Option AshBackend := do
  let w ← cmds.foldlM (ListWalk.step host) (ListWalk.start b)
  let walked := { w.backend with display := w.replay.display }
  if w.replay.passes.isEmpty then return walked
  else
    let (b,videooutDrawn) := { walked with drawTarget := true }.recordPasses w.replay.passes wait
    let b := if videooutDrawn then { b with video.embeddedDrawn := true } else b
    return w.rtDumps.foldl dumpRenderTargetPng (w.readbacks.foldl readback b)

/-- A flip ends the frame. -/
def submitFlip (b : AshBackend) (key : BufferKey) (signal : ℕ) : AshBackend :=
  { b with
    videooutClearedThisFrame := false
    video := (b.video.submitFlip key signal).1
    log := .flipped :: b.log }

/-- The guest's framebuffer is copied over the image until something was drawn into it. -/
def present (b : AshBackend) (fence : Bool) (acquire : Acquire) : AshBackend :=
  { b with
    video := (b.video.present fence acquire).1
    log := if fence ∧ acquire = .image then .presented (!b.video.embeddedDrawn) :: b.log
      else b.log }

end AshBackend

inductive RenderAct where
  | runCommandList (cmds : List RenderCmd) (wait : FenceWait)
  | submitFlip (key : BufferKey) (signal : ℕ)
  | present (fence : Bool) (acquire : Acquire)
  | registerBuffer (imports : Bool) (ptr w h pixelFormat : ℕ) (key : BufferKey)
  | signalVsync

namespace AshBackend

def step (host : HostMemory) (b : AshBackend) : RenderAct → Option AshBackend
  | .runCommandList cmds wait => b.runCommandList host cmds wait
  | .submitFlip key signal => some (b.submitFlip key signal)
  | .present fence acquire => some (b.present fence acquire)
  | .registerBuffer imports ptr w h pixelFormat key =>
      some { b with video := b.video.registerBuffer host imports ptr w h pixelFormat key }
  | .signalVsync => some { b with video := b.video.signalVsync.1 }

def start : AshBackend :=
  ⟨.start,⟨fun _ => none,fun _ => none,fun _ => none⟩,fun _ => none,∅,false,false,[]⟩

def Initial (b : AshBackend) : Prop := b = start

end AshBackend

end Unemups4.Gpu
