import Unemups4.TwinRuns
import Unemups4.UploadRuns

/-! A draw packet that is given up on: what it leaves bound is taken by the next draw of
the list, so it is invisible only if it binds nothing. -/
namespace Unemups4.Gnm
open Gcn

def RecordedPass.rename (f : ℕ → ℕ) (p : RecordedPass) : RecordedPass :=
  { p with
    target := p.target.map f
    draw := match p.draw with
      | .auto count => .auto count
      | .indexed id count t => .indexed (f id) count t
    vertexBuffers := p.vertexBuffers.map fun b => { b with buffer := f b.buffer }
    storageBinds := p.storageBinds.map fun b => { b with buffer := f b.buffer }
    constBinds := p.constBinds.map fun b => { b with buffer := f b.buffer }
    textureBinds := p.textureBinds.map fun b => { b with image := f b.image, sampler := f b.sampler } }

def Packet.isDraw : Packet → Bool
  | .drawIndexAuto _ _ | .drawIndex2 _ _ | .drawIndexOffset2 _ _ => true
  | _ => false

/-- Handling the packet appended no draw. -/
def GivenUp (e e' : Exec) : Prop := e'.cmds.filter Replay.isDraw = e.cmds.filter Replay.isDraw

instance (e e' : Exec) : Decidable (GivenUp e e') :=
  inferInstanceAs (Decidable (e'.cmds.filter Replay.isDraw = e.cmds.filter Replay.isDraw))

/-- With these packets to follow, the passes of the list are those of the list without the
packet, up to the names of the resources, and so are the registered targets. -/
def InvisibleIn (T : Toolchain) (d : Display) (e e' : Exec) (more : List Packet) : Prop :=
  ∀ out out', e.walk T more = some out → e'.walk T more = some out' →
    (∃ f : ℕ → ℕ, f.Injective ∧ (replayCommandList d out'.cmds).passes.map (·.rename f) =
      (replayCommandList d out.cmds).passes) ∧ out'.renderTargets = out.renderTargets

namespace DrawInputs

/-- The draw is given up on before its first command, or goes to the videoout with
nothing to bind. -/
def BindsNothing (T : Toolchain) (e : Exec) (i : DrawInputs) : Prop :=
  match (e.resolveShaders T i.bound).1, i.drawState with
  | some (vs,ps), some draw => draw.target.kind = .videoout ∧ (i.resolve e.renderTargets vs ps = none ∨
      vs.constBuffers = [] ∧ ps.constBuffers = [] ∧ ps.samplers = [] ∧ i.streams vs = [])
  | _, _ => True

/-- A later draw `j`, from `x` on, finds nothing else in what the draw `i`, from `e` on, cached:
a binary that `i` compiled is the same under the same header, and the shaders of the pipeline
that `i` created are the same under the same key. -/
structure Spares (T : Toolchain) (e : Exec) (i : DrawInputs) (x : Exec) (j : DrawInputs) : Prop where
  compiled : ∀ {stage stage' t t'}, T.texts e.read i.bound stage = some (.binary (some t)) →
    served e.shaders t.key = none → T.texts x.read j.bound stage' = some (.binary (some t')) →
    served x.shaders t'.key = none → t'.key = t.key → t' = t
  created : ∀ {p q}, e.wants T i = some p → e.pipelines.lookup p.key = none →
    x.wants T j = some q → x.pipelines.lookup q.key = none → q.key = p.key →
    T.texts x.read j.bound = T.texts e.read i.bound

end DrawInputs

def Packet.BindsNothing (T : Toolchain) (e : Exec) : Packet → Prop
  | .drawIndexAuto i _ => i.BindsNothing T e
  | .drawIndex2 i body => body = none ∨ i.BindsNothing T e
  | .drawIndexOffset2 i body => body = none ∨ i.BindsNothing T e
  | _ => True

/-- A later draw is spared by the draw of the packet, if it has one. -/
def Packet.Spares (T : Toolchain) (e : Exec) (p : Packet) (x : Exec) (j : DrawInputs) : Prop :=
  ∀ i, p.inputs = some i → i.Spares T e x j

/-- How much is bound besides the pipeline and the rectangles. -/
def Binds.weight (b : Binds) : ℕ :=
  b.currentRt.toList.length+b.vertexBuffers.length+b.storageBinds.length+b.constBinds.length+
    b.textureBinds.length

def RecordedPass.weight (p : RecordedPass) : ℕ :=
  p.target.toList.length+p.vertexBuffers.length+p.storageBinds.length+p.constBinds.length+
    p.textureBinds.length

lemma RecordedPass.rename_id (p : RecordedPass) : p.rename id = p := by
  obtain ⟨target,pipeline,draw,vertexBuffers,storageBinds,constBinds,textureBinds,viewport,scissor⟩ := p
  cases draw <;> simp [rename]

lemma RecordedPass.weight_rename (f : ℕ → ℕ) (p : RecordedPass) : (p.rename f).weight = p.weight := by
  cases htarget : p.target <;> simp [weight, rename, htarget]

lemma Binds.weight_bindTexture (b : Binds) (t : TextureBind) :
    b.weight ≤ (b.bindTexture t).weight ∧
      (b.textureBinds = [] → (b.bindTexture t).weight = b.weight+1) := by
  unfold Binds.bindTexture Binds.weight
  dsimp only
  split_ifs with hany
  · refine ⟨by simp,fun hnil => ?_⟩
    simp [hnil] at hany
  · refine ⟨by simp,fun _ => by simp; omega⟩

lemma Replay.weight_bind (d : Display) (b : Binds) {cmd : BackendCmd} (hcmd : isDraw cmd = false) :
    b.weight ≤ (Replay.bind d b cmd).weight := by
  cases cmd with
  | drawAuto count => cases hcmd
  | drawIndexed id count t => cases hcmd
  | bindTexture slot imageId samplerId =>
    rw [Replay.bind_texture]
    split_ifs
    · exact (b.weight_bindTexture _).1
    · exact le_rfl
  | setRenderTarget id =>
    simp only [Replay.bind, Binds.accept, Binds.weight, Option.toList_some, List.length_singleton]
    have hone : b.currentRt.toList.length ≤ 1 := by cases b.currentRt <;> simp
    omega
  | bindVertexBuffer | bindStorageBuffer | bindConstBuffer =>
    simp only [Replay.bind_vertexBuffer, Replay.bind_storageBuffer, Replay.bind_constBuffer]
    split_ifs
    · simp [Binds.weight]
    · exact le_rfl
  | _ => simp [Replay.bind, Binds.accept, Binds.weight]

lemma Replay.run_no_draw (r : Replay) {cmds : List BackendCmd}
    (h : ∀ cmd ∈ cmds, isDraw cmd = false) :
    r.binds.weight ≤ (r.run cmds).binds.weight ∧ (r.run cmds).passes = r.passes := by
  induction cmds generalizing r with
  | nil => exact ⟨le_rfl,rfl⟩
  | cons cmd cmds ih =>
    obtain ⟨hweight,hpasses⟩ := ih (r.step cmd) fun c hc => h c (List.mem_cons_of_mem _ hc)
    have hcmd := h cmd (by simp)
    have hcloses : r.closes cmd = none := by
      cases cmd <;> first | rfl | cases hcmd
    refine ⟨(weight_bind r.display r.binds hcmd).trans hweight,hpasses.trans ?_⟩
    simp [step, hcloses]

namespace Exec

variable {d : Display} {e e' e'' : Exec} {T : Toolchain}

/-- What the next draw of the list would take. -/
def binds (d : Display) (e : Exec) : Binds := (replayCommandList d e.cmds).binds

/-- The second executor went on from the first without a draw. -/
structure Onward (d : Display) (e e' : Exec) : Prop where
  weight : (e.binds d).weight ≤ (e'.binds d).weight
  draws : GivenUp e e'
  passes : (replayCommandList d e'.cmds).passes = (replayCommandList d e.cmds).passes

/-- One cache operation that names the id. -/
def Taken (e : Exec) (id : ℕ) (e' : Exec) : Prop := ∃ r, e.take r = (id,e')

lemma fetch_taken {now id : ℕ} {key : ResourceKey} (h : e.fetch now key = some (id,e')) :
    e.Taken id e' := by
  obtain ⟨r,-,heq⟩ := Option.map_eq_some_iff.mp h
  exact ⟨_,heq⟩

lemma fetchRenderTarget_taken {base size id : ℕ} {target : TargetDesc}
    (h : e.fetchRenderTarget base size target = some (id,e')) : e.Taken id e' := by
  obtain ⟨r,-,heq⟩ := Option.map_eq_some_iff.mp h
  exact ⟨_,heq⟩

lemma fetchSampler_taken {id : ℕ} {desc : SamplerDesc} (h : e.fetchSampler desc = some (id,e')) :
    e.Taken id e' := by
  obtain ⟨r,-,heq⟩ := Option.map_eq_some_iff.mp h
  exact ⟨_,heq⟩

lemma fetchImage_taken {now id : ℕ} {src : TextureSource}
    (h : e.fetchImage T now src = some (id,e')) : e.Taken id e' := by
  cases src with
  | renderTarget rt t => exact fetchRenderTarget_taken h
  | plain t =>
    simp only [Exec.fetchImage] at h
    split_ifs at h
    all_goals
      obtain ⟨r,-,heq⟩ := Option.map_eq_some_iff.mp h
      exact ⟨_,heq⟩

namespace Onward

lemma refl (d : Display) (e : Exec) : Onward d e e := ⟨le_rfl,rfl,rfl⟩

lemma trans (h : Onward d e e') (h' : Onward d e' e'') : Onward d e e'' :=
  ⟨h.weight.trans h'.weight,h'.draws.trans h.draws,h'.passes.trans h.passes⟩

lemma of_append {cmds : List BackendCmd} (heq : e'.cmds = e.cmds ++ cmds)
    (h : ∀ cmd ∈ cmds, Replay.isDraw cmd = false) : Onward d e e' := by
  have hdraws : cmds.filter Replay.isDraw = [] := by simpa using h
  obtain ⟨hweight,hpasses⟩ := (replayCommandList d e.cmds).run_no_draw h
  rw [← replay_append, ← heq] at hweight hpasses
  exact ⟨hweight,by simp [GivenUp, heq, hdraws],hpasses⟩

lemma emit (h : Onward d e e') {cmd : BackendCmd} (hcmd : Replay.isDraw cmd = false) :
    Onward d e (e'.emit cmd) :=
  h.trans (of_append rfl (by simpa using hcmd))

lemma take (e : Exec) (r : ℕ × ResourceCache × List ResourceCmd) : Onward d e (e.take r).2 := by
  refine of_append rfl ?_
  intro cmd hcmd
  obtain ⟨c,-,rfl⟩ := List.mem_map.mp hcmd
  rfl

lemma of_taken {id : ℕ} (h : e.Taken id e') : Onward d e e' := by
  obtain ⟨r,hr⟩ := h
  obtain rfl := congrArg Prod.snd hr
  exact take e r

lemma bindTexture {now : ℕ} {b : SamplerBinding × TextureSource}
    (h : e.bindTexture T now b = some e') : Onward d e e' := by
  obtain ⟨⟨imageId,e₁⟩,himage,h⟩ := Option.bind_eq_some_iff.mp h
  obtain ⟨⟨samplerId,e₂⟩,hsampler,rfl⟩ := Option.map_eq_some_iff.mp h
  exact ((of_taken (fetchImage_taken himage)).trans (of_taken (fetchSampler_taken hsampler))).emit rfl

lemma bindConst {now : ℕ} {c : ConstBufferBinding × BufferRange} (h : e.bindConst now c = some e') :
    Onward d e e' := by
  obtain ⟨⟨id,e₁⟩,hget,rfl⟩ := Option.map_eq_some_iff.mp h
  exact (of_taken (fetch_taken hget)).emit rfl

lemma bindStorage {now : ℕ} {b : ℕ × BufferBinding × BufferRange}
    (h : e.bindStorage now b = some e') : Onward d e e' := by
  obtain ⟨⟨id,e₁⟩,hget,rfl⟩ := Option.map_eq_some_iff.mp h
  exact (of_taken (fetch_taken hget)).emit rfl

lemma bindVertex {now : ℕ} {b : ℕ × BufferRange} (h : e.bindVertex now b = some e') :
    Onward d e e' := by
  obtain ⟨⟨id,e₁⟩,hget,rfl⟩ := Option.map_eq_some_iff.mp h
  exact (of_taken (fetch_taken hget)).emit rfl

lemma bindAll {α : Type} {bind : Exec → α → Option Exec}
    (hbind : ∀ {e a e'}, bind e a = some e' → Onward d e e') {as : List α}
    (h : Exec.bindAll bind e as = some e') : Onward d e e' := by
  induction as generalizing e with
  | nil =>
    cases h
    exact refl d _
  | cons a as ih =>
    obtain ⟨e₁,hone,hrest⟩ := Option.bind_eq_some_iff.mp h
    exact (hbind hone).trans (ih hrest)

lemma bindBuffers {i : DrawInputs} {vs : HostShader} {bound : Bool}
    (h : e.bindBuffers i vs = some (e',bound)) : Onward d e e' := by
  unfold Exec.bindBuffers at h
  split_ifs at h
  · cases h
    exact refl d e
  · obtain ⟨e₁,hall,heq⟩ := Option.map_eq_some_iff.mp h
    cases heq
    exact bindAll bindStorage hall
  · obtain ⟨e₁,hall,heq⟩ := Option.map_eq_some_iff.mp h
    cases heq
    exact bindAll bindVertex hall

lemma bindPipeline (e : Exec) (p : HostPipeline) : Onward d e (e.bindPipeline p) := by
  unfold Exec.bindPipeline
  cases e.pipelines.lookup p.key with
  | some id => exact (refl d e).emit rfl
  | none =>
    have hcreate : Onward d e (e.emit (.createPipeline e.nextPipeline p)) := (refl d e).emit rfl
    exact hcreate.trans (of_append rfl (by simp [Replay.isDraw]))

lemma commitTarget (e : Exec) (target : TargetDesc) : Onward d e (e.commitTarget target) := by
  unfold Exec.commitTarget
  cases target.kind with
  | videoout => exact refl d e
  | offscreen base size => exact of_append (List.append_nil _).symm (by simp)

lemma rects (e : Exec) (v : ViewportRect) (s : ScissorRect) :
    Onward d e ((e.emit (.setViewport v)).emit (.setScissor s)) := ((refl d e).emit rfl).emit rfl

lemma bindDraw {i : DrawInputs} {vs ps : HostShader} {draw : DrawState} {r : Resolved} {ready : Bool}
    (h : e.bindDraw T i vs ps draw r = some (e',ready)) : Onward d e e' := by
  simp only [Exec.bindDraw, Option.bind_eq_bind, Option.pure_def] at h
  obtain ⟨e₁,htex,h⟩ := Option.bind_eq_some_iff.mp h
  obtain ⟨e₂,hconst,h⟩ := Option.bind_eq_some_iff.mp h
  obtain ⟨⟨e₃,bound⟩,hbuf,h⟩ := Option.bind_eq_some_iff.mp h
  have hall := (((bindPipeline e _).trans (bindAll bindTexture htex)).trans
    (bindAll bindConst hconst)).trans (bindBuffers (d := d) hbuf)
  split_ifs at h
  · cases h
    exact (hall.trans (commitTarget e₃ draw.target)).trans (rects _ _ _)
  · cases h
    exact hall

lemma registerRenderTarget {target : TargetDesc} (h : e.registerRenderTarget target = some e') :
    Onward d e e' := by
  unfold Exec.registerRenderTarget at h
  split at h
  · cases h
    exact refl d _
  · obtain ⟨⟨id,e₁⟩,hget,rfl⟩ := Option.map_eq_some_iff.mp h
    exact (of_taken (fetchRenderTarget_taken hget)).emit rfl

lemma setupDraw {i : DrawInputs} {ready : Bool} (h : e.setupDraw T i = some (e',ready)) :
    Onward d e e' := by
  have hresolved : Onward d e (e.resolveShaders T i.bound).2 :=
    of_append (List.append_nil _).symm (by simp)
  simp only [Exec.setupDraw] at h
  split at h
  · cases h
    exact hresolved
  · split at h
    · cases h
      exact hresolved
    · obtain ⟨e₁,hreg,h⟩ := Option.bind_eq_some_iff.mp h
      have hopened := hresolved.trans (registerRenderTarget hreg)
      split at h
      · cases h
        exact hopened
      · exact hopened.trans (bindDraw h)

end Onward

section Bound

lemma binds_emit (d : Display) (e : Exec) (cmd : BackendCmd) :
    (e.emit cmd).binds d = Replay.bind (replayCommandList d e.cmds).display (e.binds d) cmd := by
  simp [binds, Exec.emit, replay_append, Replay.run, Replay.step]

lemma run_resource_binds (r : Replay) (cmds : List ResourceCmd) :
    (r.run (cmds.map .resource)).binds = r.binds := by
  induction cmds generalizing r with
  | nil => rfl
  | cons cmd cmds ih => exact ih (r.step (.resource cmd))

lemma binds_of_taken {id : ℕ} (h : e.Taken id e') : e'.binds d = e.binds d := by
  obtain ⟨r,hr⟩ := h
  obtain rfl := congrArg Prod.snd hr
  rw [binds, Exec.take, replay_append]
  exact run_resource_binds _ r.2.2

lemma display_isBuffer (d : Display) (cmds : List BackendCmd) (id : ℕ) :
    (replayCommandList d cmds).display.isBuffer id = (d.applyAll (resourceCmds cmds)).isBuffer id := by
  obtain ⟨hlive,-⟩ := run_held (.start d) cmds
  rw [Display.isBuffer, replayCommandList, hlive]
  rfl

lemma display_isSampled (d : Display) (cmds : List BackendCmd) (id : ℕ) :
    (replayCommandList d cmds).display.isSampled id =
      (d.applyAll (resourceCmds cmds)).isSampled id := by
  obtain ⟨hlive,hretired⟩ := run_held (.start d) cmds
  rw [Display.isSampled, Display.held, replayCommandList, hlive, hretired]
  rfl

lemma display_isSampler (d : Display) (cmds : List BackendCmd) (id : ℕ) :
    (replayCommandList d cmds).display.isSampler id =
      (d.applyAll (resourceCmds cmds)).isSampler id := by
  obtain ⟨hlive,-⟩ := run_held (.start d) cmds
  rw [Display.isSampler, replayCommandList, hlive]
  rfl

lemma bindConst_weight (hsync : e.InSync d) {now : ℕ} {c : ConstBufferBinding × BufferRange}
    (h : e.bindConst now c = some e') : (e'.binds d).weight = (e.binds d).weight+1 := by
  obtain ⟨⟨id,e₁⟩,hget,rfl⟩ := Option.map_eq_some_iff.mp h
  have hbuf := (hsync.fetch rfl hget).2
  rw [binds_emit, binds_of_taken (fetch_taken hget)]
  simp [display_isBuffer, hbuf, Binds.weight]
  omega

lemma bindStorage_weight (hsync : e.InSync d) {now : ℕ} {b : ℕ × BufferBinding × BufferRange}
    (h : e.bindStorage now b = some e') : (e'.binds d).weight = (e.binds d).weight+1 := by
  obtain ⟨⟨id,e₁⟩,hget,rfl⟩ := Option.map_eq_some_iff.mp h
  have hbuf := (hsync.fetch rfl hget).2
  rw [binds_emit, binds_of_taken (fetch_taken hget)]
  simp [display_isBuffer, hbuf, Binds.weight]
  omega

lemma bindVertex_weight (hsync : e.InSync d) {now : ℕ} {b : ℕ × BufferRange}
    (h : e.bindVertex now b = some e') : (e'.binds d).weight = (e.binds d).weight+1 := by
  obtain ⟨⟨id,e₁⟩,hget,rfl⟩ := Option.map_eq_some_iff.mp h
  have hbuf := (hsync.fetch rfl hget).2
  rw [binds_emit, binds_of_taken (fetch_taken hget)]
  simp [display_isBuffer, hbuf, Binds.weight]
  omega

lemma bindTexture_weight (hsync : e.InSync d) (hnone : (e.binds d).textureBinds = []) {now : ℕ}
    {b : SamplerBinding × TextureSource} (h : e.bindTexture T now b = some e') :
    (e'.binds d).weight = (e.binds d).weight+1 := by
  obtain ⟨⟨imageId,e₁⟩,himage,h⟩ := Option.bind_eq_some_iff.mp h
  obtain ⟨⟨samplerId,e₂⟩,hsampler,rfl⟩ := Option.map_eq_some_iff.mp h
  obtain ⟨hsync₁,hsampled⟩ := hsync.fetchImage himage
  obtain ⟨-,hissampler,hkeep⟩ := hsync₁.fetchSampler hsampler
  rw [binds_emit, binds_of_taken (fetchSampler_taken hsampler),
    binds_of_taken (fetchImage_taken himage)]
  simp only [Replay.bind_texture, display_isSampled, display_isSampler, hkeep _ hsampled, hissampler,
    Bool.and_self, if_true]
  exact (Binds.weight_bindTexture _ _).2 hnone

lemma registerRenderTarget_weight (hnone : (e.binds d).currentRt = none) {target : TargetDesc}
    (hkind : target.kind ≠ .videoout) (h : e.registerRenderTarget target = some e') :
    (e'.binds d).weight = (e.binds d).weight+1 := by
  unfold Exec.registerRenderTarget at h
  split at h
  · next hv => exact absurd hv hkind
  · obtain ⟨⟨id,e₁⟩,hget,rfl⟩ := Option.map_eq_some_iff.mp h
    rw [binds_emit, binds_of_taken (fetchRenderTarget_taken hget)]
    simp [Replay.bind, Binds.accept, Binds.weight, hnone]
    omega

/-- The first of several binds already counts. -/
lemma bindAll_weight {α : Type} {bind : Exec → α → Option Exec}
    (hbind : ∀ {e a e'}, bind e a = some e' → Onward d e e')
    (hfirst : ∀ {a e'}, bind e a = some e' → (e'.binds d).weight = (e.binds d).weight+1)
    {as : List α} (has : as ≠ []) (h : bindAll bind e as = some e') :
    (e.binds d).weight < (e'.binds d).weight := by
  cases as with
  | nil => exact absurd rfl has
  | cons a as =>
    obtain ⟨e₁,hone,hrest⟩ := Option.bind_eq_some_iff.mp h
    have hle := (Onward.bindAll hbind hrest).weight
    have hlt := hfirst hone
    omega

lemma bindPipeline_binds (h : e.Minted d) (p : HostPipeline) :
    (e.bindPipeline p).binds d =
      { e.binds d with pipeline := some ((e.builtAt d p.key).getD p) } := by
  obtain ⟨-,-,f,hreplay⟩ := bindPipeline_replay h p
  rw [binds, hreplay]
  rfl

lemma resolve_consts {i : DrawInputs} {rts : List RegisteredRt} {vs ps : HostShader} {r : Resolved}
    (h : i.resolve rts vs ps = some r) :
    i.resolveConst .vertex vs = some r.vsConst ∧ i.resolveConst .pixel ps = some r.psConst := by
  simp only [DrawInputs.resolve, Option.bind_eq_bind, Option.pure_def] at h
  obtain ⟨vsConst,hvs,h⟩ := Option.bind_eq_some_iff.mp h
  obtain ⟨psConst,hps,h⟩ := Option.bind_eq_some_iff.mp h
  obtain ⟨textures,-,h⟩ := Option.bind_eq_some_iff.mp h
  obtain ⟨layout,-,h⟩ := Option.bind_eq_some_iff.mp h
  cases h
  exact ⟨hvs,hps⟩

lemma resolveConst_none {i : DrawInputs} {stage : ShaderStage} {s : HostShader}
    (h : i.resolveConst stage s = some none) : s.constBuffers = [] := by
  unfold DrawInputs.resolveConst at h
  split at h
  · assumption
  · simp at h
  · cases h

lemma bindBuffers_weight (hsync : e.InSync d) {i : DrawInputs} {vs : HostShader} {bound : Bool}
    (hstream : i.streams vs ≠ []) (h : e.bindBuffers i vs = some (e',bound)) :
    (e.binds d).weight < (e'.binds d).weight := by
  unfold DrawInputs.streams DrawInputs.starves at hstream
  unfold Exec.bindBuffers at h
  by_cases hnil : vs.buffers = []
  · rw [if_pos hnil] at hstream
    rw [if_neg (not_not_intro hnil)] at h
    obtain ⟨e₁,hall,heq⟩ := Option.map_eq_some_iff.mp h
    cases heq
    exact bindAll_weight Onward.bindVertex (bindVertex_weight hsync) (by simpa using hstream) hall
  · by_cases hfew : (i.vertexRanges vs).length < vs.buffers.length
    · simp [hnil, hfew] at hstream
    · rw [if_pos hnil, if_neg hfew] at h
      obtain ⟨e₁,hall,heq⟩ := Option.map_eq_some_iff.mp h
      cases heq
      refine bindAll_weight Onward.bindStorage (bindStorage_weight hsync) ?_ hall
      simpa [hnil, hfew] using hstream

/-- A draw with anything to bind leaves more bound than before, even if it is given up. -/
lemma bindDraw_weight (hsync : e.InSync d) (hminted : e.Minted d)
    (htex : (e.binds d).textureBinds = []) {i : DrawInputs} {rts : List RegisteredRt}
    {vs ps : HostShader} {draw : DrawState} {r : Resolved} {ready : Bool}
    (hr : i.resolve rts vs ps = some r)
    (hsome : ¬(vs.constBuffers = [] ∧ ps.constBuffers = [] ∧ ps.samplers = [] ∧ i.streams vs = []))
    (h : e.bindDraw T i vs ps draw r = some (e',ready)) :
    (e.binds d).weight < (e'.binds d).weight := by
  have hbinds := bindPipeline_binds hminted (hostPipeline i.bound vs ps draw r)
  have hweight : ((e.bindPipeline (hostPipeline i.bound vs ps draw r)).binds d).weight = (e.binds d).weight := by
    rw [hbinds]
    rfl
  have hsync₀ := hsync.bindPipeline (hostPipeline i.bound vs ps draw r)
  simp only [Exec.bindDraw, Option.bind_eq_bind, Option.pure_def] at h
  obtain ⟨e₁,htextures,h⟩ := Option.bind_eq_some_iff.mp h
  obtain ⟨e₂,hconst,h⟩ := Option.bind_eq_some_iff.mp h
  obtain ⟨⟨e₃,bound⟩,hbuf,h⟩ := Option.bind_eq_some_iff.mp h
  have hrest : Onward d e₃ e' := by
    split_ifs at h
    · cases h
      exact (Onward.commitTarget e₃ draw.target).trans (Onward.rects _ _ _)
    · cases h
      exact Onward.refl d _
  have hle₁ := (Onward.bindAll (d := d) Onward.bindTexture htextures).weight
  have hle₂ := (Onward.bindAll (d := d) Onward.bindConst hconst).weight
  have hle₃ := (Onward.bindBuffers (d := d) hbuf).weight
  have hle₄ := hrest.weight
  rw [← hweight]
  by_cases hts : r.textures = []
  · rw [hts] at htextures
    cases htextures
    by_cases hcs : r.vsConst.toList ++ r.psConst.toList = []
    · rw [hcs] at hconst
      cases hconst
      obtain ⟨hvs,hps⟩ := resolve_consts hr
      rw [List.append_eq_nil_iff, Option.toList_eq_nil_iff, Option.toList_eq_nil_iff] at hcs
      have hsamplers : ps.samplers = [] := by rw [← resolve_textures hr, hts, List.map_nil]
      have hstream : i.streams vs ≠ [] := fun hstream =>
        hsome ⟨resolveConst_none (hcs.1 ▸ hvs),resolveConst_none (hcs.2 ▸ hps),hsamplers,hstream⟩
      have hlt := bindBuffers_weight hsync₀ hstream hbuf
      omega
    · have hlt := bindAll_weight Onward.bindConst (bindConst_weight hsync₀) hcs hconst
      omega
  · have hlt := bindAll_weight Onward.bindTexture
      (bindTexture_weight hsync₀ (by rw [hbinds]; exact htex)) hts htextures
    omega

lemma setupDraw_weight (hsync : e.InSync d) (hminted : e.Minted d)
    (hrt : (e.binds d).currentRt = none) (htex : (e.binds d).textureBinds = []) {i : DrawInputs}
    {ready : Bool} (hsome : ¬i.BindsNothing T e) (h : e.setupDraw T i = some (e',ready)) :
    (e.binds d).weight < (e'.binds d).weight := by
  unfold DrawInputs.BindsNothing at hsome
  simp only [Exec.setupDraw] at h
  set e₀ := (e.resolveShaders T i.bound).2 with he₀
  have hsync₀ : e₀.InSync d := ⟨hsync.synced,hsync.whole⟩
  have hminted₀ : e₀.Minted d := ⟨hminted.built,hminted.fresh⟩
  cases hpair : (e.resolveShaders T i.bound).1 with
  | none => simp [hpair] at hsome
  | some pair =>
    cases hdraw : i.drawState with
    | none => simp [hpair, hdraw] at hsome
    | some draw =>
      obtain ⟨vs,ps⟩ := pair
      simp only [hpair, hdraw] at hsome h
      obtain ⟨e₁,hreg,hbind⟩ := Option.bind_eq_some_iff.mp h
      change (e₀.binds d).weight < _
      by_cases hkind : draw.target.kind = .videoout
      · have heq : e₁ = e₀ := by simpa [Exec.registerRenderTarget, hkind] using hreg.symm
        rw [heq] at hbind
        split at hbind
        · next hr => exact absurd ⟨hkind,.inl hr⟩ hsome
        · next r hr =>
          exact bindDraw_weight hsync₀ hminted₀ htex hr (fun hall => hsome ⟨hkind,.inr hall⟩) hbind
      · have hlt := registerRenderTarget_weight (e := e₀) hrt hkind hreg
        have hle : (e₁.binds d).weight ≤ (e'.binds d).weight := by
          split at hbind
          · cases hbind
            exact le_rfl
          · exact (Onward.bindDraw hbind).weight
        omega

end Bound

section Nothing

/-- What the second executor holds beyond the first. -/
def stock (d : Display) (e e' : Exec) : Stock where
  shader key := if (served e.shaders key).isSome then none else served e'.shaders key
  pipeline key := if (e.builtAt d key).isSome then none else e'.builtAt d key
  kept := served e'.shaders

/-- The second executor went on from the first by caching the shaders and the pipeline of a
draw. -/
structure Caches (T : Toolchain) (d : Display) (i : DrawInputs) (e e' : Exec) : Prop where
  cache : e.cache = e'.cache
  renderTargets : e.renderTargets = e'.renderTargets
  index : e.index = e'.index
  bytes : e.bytes = e'.bytes
  readable : e.readable = e'.readable
  shaders : served e'.shaders = T.pairLearn (served e.shaders) (T.texts e.read i.bound)
  built : ∀ key q, e.builtAt d key = some q → e'.builtAt d key = some q
  created : ∀ key q, e.builtAt d key = none → e'.builtAt d key = some q →
    e.wants T i = some q ∧ q.key = key
  replay : (replayCommandList d e.cmds).Alike .bare (replayCommandList d e'.cmds)
  minted : e'.Minted d

namespace Caches

variable {i j : DrawInputs}

lemma sim (h : Caches T d i e e') (hminted : e.Minted d) : Sim d .bare (stock d e e') e e' := by
  refine ⟨h.cache,h.renderTargets,h.index,h.bytes,h.readable,fun key => ?_,fun _ _ hkept => hkept,
    fun key => ?_,h.replay,hminted,h.minted⟩
  · cases hat : served e.shaders key with
    | none => simp [stock, hat]
    | some host =>
      rw [h.shaders]
      simp [Toolchain.learn_held (Toolchain.learn_held hat _), Toolchain.pairLearn]
  · cases hat : e.builtAt d key with
    | none => simp [stock, hat]
    | some q => simp [h.built key q hat]

/-- A draw that is spared makes what it finds. -/
lemma suits (h : Caches T d i e e') (hminted : e.Minted d) {l : Agreement} {x x' : Exec}
    (hsim : Sim d l (stock d e e') x x') (hspares : i.Spares T e x j) :
    Suits T d (stock d e e') x j := by
  have hshader : ∀ stage t host, T.texts x.read j.bound stage = some (.binary (some t)) →
      served x.shaders t.key = none → (stock d e e').shader t.key = some host →
        T.compile t = some host := by
    intro stage t host ht hnone hstock
    simp only [stock] at hstock
    split_ifs at hstock with hheld
    rw [h.shaders] at hstock
    rw [Bool.not_eq_true, Option.isSome_eq_false_iff, Option.isNone_iff_eq_none] at hheld
    obtain ⟨stage',t₀,ht₀,hkey,hcompile⟩ := Toolchain.pairLearn_new hstock hheld
    rwa [hspares.compiled ht₀ (hkey ▸ hheld) ht hnone hkey.symm]
  refine ⟨hshader,fun p q hp hnone hstock => ?_⟩
  simp only [stock] at hstock
  split_ifs at hstock with hbuilt
  rw [Bool.not_eq_true, Option.isSome_eq_false_iff, Option.isNone_iff_eq_none] at hbuilt
  obtain ⟨hq,hkey⟩ := h.created _ q hbuilt hstock
  have hfresh : ∀ {y : Exec} {key}, y.Minted d → y.builtAt d key = none →
      y.pipelines.lookup key = none := by
    intro y key hy hat
    cases hlook : y.pipelines.lookup key with
    | none => rfl
    | some id =>
      have hsome := hy.built key id hlook
      simp only [builtAt, hlook, Option.bind_some] at hat
      simp [hat] at hsome
  have htexts := hspares.created hq (hfresh hminted (hkey ▸ hbuilt)) hp (hfresh hsim.minted hnone)
    hkey.symm
  obtain ⟨pair,hpair,hpkey⟩ := wants_eq_ofKey hp
  obtain ⟨pair',hpair',hqkey⟩ := wants_eq_ofKey hq
  rw [(resolveShaders_spec _ _).1] at hpair hpair'
  have hsame := (Toolchain.pairLearn_beyond hsim.shaders hshader).1
  have hlearnt : T.pairHost (served x'.shaders) (T.texts e.read i.bound) = some pair' :=
    Toolchain.pairHost_learnt hpair' fun key host hkept =>
      hsim.kept key host (by rwa [stock, h.shaders])
  rw [← htexts, hsame, hpair, Option.some.injEq] at hlearnt
  rw [hpkey, hqkey, hkey, hlearnt]

lemma resolveShaders (hminted : e.Minted d) (i : DrawInputs) :
    Caches T d i e (e.resolveShaders T i.bound).2 where
  cache := rfl
  renderTargets := rfl
  index := rfl
  bytes := rfl
  readable := rfl
  shaders := (e.resolveShaders_spec i.bound).2
  built _ _ hq := hq
  created key q hnone hq := by
    have hsome : e.builtAt d key = some q := hq
    rw [hnone] at hsome
    cases hsome
  replay := ⟨rfl,rfl,rfl,rfl⟩
  minted := ⟨hminted.built,hminted.fresh⟩

/-- Its pipeline is all that a draw creates. -/
lemma bindPipeline (h : Caches T d i e e') {p : HostPipeline} (hp : e.wants T i = some p)
    (hbefore : e'.builtAt d = e.builtAt d) : Caches T d i e (e'.bindPipeline p) := by
  obtain ⟨hcache,hrts,hindex,hbytes,hreadable,hshaders⟩ := e'.bindPipeline_frame p
  obtain ⟨hminted,hbuilt,f,hreplay⟩ := bindPipeline_replay h.minted p
  simp only [hbefore] at hbuilt
  refine ⟨h.cache.trans hcache.symm,h.renderTargets.trans hrts.symm,h.index.trans hindex.symm,
    h.bytes.trans hbytes.symm,h.readable.trans hreadable.symm,?_,fun key q hq => ?_,
    fun key q hnone hq => ?_,?_,hminted⟩
  · rw [hshaders]
    exact h.shaders
  · rw [hbuilt]
    split_ifs with hkey
    · rw [← hkey, hq, Option.getD_some]
    · exact hq
  · rw [hbuilt] at hq
    split_ifs at hq with hkey
    · rw [← hkey, hnone, Option.getD_none] at hq
      cases hq
      exact ⟨hp,hkey.symm⟩
    · rw [hnone] at hq
      cases hq
  · rw [hreplay]
    exact ⟨h.replay.live,h.replay.retired,h.replay.passes,h.replay.binds⟩

/-- The rectangles alone change nothing that a later draw keeps. -/
lemma rects (h : Caches T d i e e') (v : ViewportRect) (s : ScissorRect) :
    Caches T d i e ((e'.emit (.setViewport v)).emit (.setScissor s)) := by
  have hsame : ((e'.emit (.setViewport v)).emit (.setScissor s)).builtAt d = e'.builtAt d :=
    (builtAt_append (by simp) _).trans (builtAt_append (by simp) e')
  have hminted : ((e'.emit (.setViewport v)).emit (.setScissor s)).Minted d :=
    Minted.append (Minted.append h.minted (by simp)) (by simp)
  refine ⟨h.cache,h.renderTargets,h.index,h.bytes,h.readable,h.shaders,?_,?_,?_,hminted⟩
  · rw [hsame]
    exact h.built
  · rw [hsame]
    exact h.created
  · obtain ⟨hlive,hretired,hpasses,hbinds⟩ := h.replay
    simp only [Exec.emit, replay_append]
    exact ⟨hlive,hretired,by simpa [Replay.run, Replay.step, Replay.closes] using hpasses,hbinds⟩

end Caches

lemma bindBuffers_nothing (e : Exec) {i : DrawInputs} {vs : HostShader} (h : i.streams vs = []) :
    ∃ bound, e.bindBuffers i vs = some (e,bound) := by
  unfold DrawInputs.streams DrawInputs.starves at h
  unfold Exec.bindBuffers
  by_cases hnil : vs.buffers = []
  · rw [if_pos hnil] at h
    exact ⟨true,by simp [hnil, h, Exec.bindAll]⟩
  · by_cases hfew : (i.vertexRanges vs).length < vs.buffers.length
    · exact ⟨false,by simp [hnil, hfew]⟩
    · simp only [hnil, hfew, if_false, decide_false, Bool.false_eq_true, List.map_eq_nil_iff,
        List.zip_eq_nil_iff, false_or] at h
      simp [h] at hfew
      exact absurd hfew hnil

/-- A draw with nothing to bind leaves only its shaders, its pipeline and rectangles. -/
lemma setupDraw_nothing (hminted : e.Minted d) {i : DrawInputs} {ready : Bool}
    (hnothing : i.BindsNothing T e) (h : e.setupDraw T i = some (e',ready)) : Caches T d i e e' := by
  have hresolved := Caches.resolveShaders (T := T) hminted i
  unfold DrawInputs.BindsNothing at hnothing
  simp only [Exec.setupDraw] at h
  cases hpair : (e.resolveShaders T i.bound).1 with
  | none =>
    simp only [hpair] at h
    cases h
    exact hresolved
  | some pair =>
    cases hdraw : i.drawState with
    | none =>
      simp only [hpair, hdraw] at h
      cases h
      exact hresolved
    | some draw =>
      obtain ⟨vs,ps⟩ := pair
      simp only [hpair, hdraw] at hnothing h
      obtain ⟨hkind,hcases⟩ := hnothing
      set e₀ := (e.resolveShaders T i.bound).2 with he₀
      have hreg : e₀.registerRenderTarget draw.target = some e₀ := by
        simp [Exec.registerRenderTarget, hkind]
      have hrts : e₀.renderTargets = e.renderTargets := rfl
      simp only [hreg, Option.bind_some, hrts] at h
      cases hr : i.resolve e.renderTargets vs ps with
      | none =>
        simp only [hr, Option.some.injEq, Prod.mk.injEq] at h
        rw [← h.1]
        exact hresolved
      | some r =>
        simp only [hr] at h
        rcases hcases with hnone | ⟨hvs,hps,hsamplers,hstream⟩
        · simp [hr] at hnone
        obtain ⟨hvsConst,hpsConst⟩ := resolve_consts hr
        have hts : r.textures = [] := by
          simpa [hsamplers] using resolve_textures hr
        have hvsnone : r.vsConst = none := by simpa [DrawInputs.resolveConst, hvs] using hvsConst.symm
        have hpsnone : r.psConst = none := by simpa [DrawInputs.resolveConst, hps] using hpsConst.symm
        have hwants : e.wants T i = some (hostPipeline i.bound vs ps draw r) := by
          simp [Exec.wants, hpair, hdraw, hr]
        have hpiped := hresolved.bindPipeline hwants rfl
        obtain ⟨bound,hbuf⟩ := (e₀.bindPipeline (hostPipeline i.bound vs ps draw r)).bindBuffers_nothing
          hstream
        simp only [Exec.bindDraw, Option.bind_eq_bind, Option.pure_def, hts, hvsnone, hpsnone,
          Exec.bindAll, Option.bind_some, Option.toList_none, List.append_nil, hbuf] at h
        split_ifs at h
        · cases h
          simp only [Exec.commitTarget, hkind]
          exact hpiped.rects _ _
        · cases h
          exact hpiped

end Nothing


/-- What a draw packet given up on did: nothing at all, or the setup of its draw. -/
lemma handle_givenUp {p : Packet} (hp : p.isDraw) (h : e.handle T p = some e')
    (hgivenUp : GivenUp e e') :
    (p.BindsNothing T e ∧ e' = e) ∨ ∃ i ready, p.inputs = some i ∧
      e.setupDraw T i = some (e',ready) ∧ (p.BindsNothing T e ↔ i.BindsNothing T e) := by
  have hdraw : ∀ {x cmd}, Onward emptyDisplay e x → Replay.isDraw cmd → ¬GivenUp e (x.emit cmd) := by
    intro x cmd hx hcmd hsame
    have hone := hx.draws
    simp [GivenUp, Exec.emit, hcmd] at hsame hone
    simp [hone] at hsame
  have hindexed : ∀ {i base count}, e.dispatchIndexed T i base count = some e' →
      ∃ ready, e.setupDraw T i = some (e',ready) := by
    intro i base count hdisp
    obtain ⟨⟨x,ready⟩,hsetup,hrest⟩ := Option.bind_eq_some_iff.mp hdisp
    refine ⟨ready,?_⟩
    cases ready with
    | false =>
      cases hrest
      exact hsetup
    | true =>
      simp only [if_true, Exec.drawIndexed] at hrest
      split_ifs at hrest
      · cases hrest
        exact hsetup
      · obtain ⟨⟨id,y⟩,hget,rfl⟩ := Option.map_eq_some_iff.mp hrest
        have hx := (Onward.setupDraw (d := emptyDisplay) hsetup).trans (.of_taken (fetch_taken hget))
        exact absurd hgivenUp (hdraw hx rfl)
  cases p with
  | drawIndexAuto i count =>
    obtain ⟨⟨x,ready⟩,hsetup,rfl⟩ := Option.map_eq_some_iff.mp h
    cases ready with
    | false => exact .inr ⟨i,false,rfl,hsetup,Iff.rfl⟩
    | true => exact absurd hgivenUp (hdraw (Onward.setupDraw hsetup) rfl)
  | drawIndex2 i body | drawIndexOffset2 i body =>
    cases body with
    | none =>
      cases h
      exact .inl ⟨.inl rfl,rfl⟩
    | some b =>
      obtain ⟨ready,hsetup⟩ := hindexed h
      exact .inr ⟨i,ready,rfl,hsetup,by simp [Packet.BindsNothing]⟩
  | _ => cases hp

/-- A draw of the built-in shaders to the videoout, which binds nothing but its pipeline. -/
def probe (blendControl : ℕ) : DrawInputs where
  now := 0
  bound := ⟨some (.embedded .vertex 0),some (.embedded .pixel 1)⟩
  drawState := some { screenState with pipeline.blendControl := blendControl }
  vertexRanges := fun _ => []
  vertexLayout := fun _ => some none
  constRange := fun _ _ => none
  texture := fun _ => none

/-- A probe with a pipeline of its own records a pass with all that was left bound. -/
lemma walk_probe (T : Toolchain) (hminted : e.Minted d) {n : ℕ}
    (hnew : ∀ x ∈ e.pipelines, x.1.state.blendControl ≠ n) :
    ∃ out pass, e.walk T [.drawIndexAuto (probe n) 3] = some out ∧
      pass.weight = (e.binds d).weight ∧
      (replayCommandList d out.cmds).passes = (replayCommandList d e.cmds).passes ++ [pass] := by
  set p := hostPipeline (probe n).bound ⟨T.vsFullscreenQuad,none⟩ ⟨T.psRgExport,none⟩
    { screenState with pipeline.blendControl := n } ⟨none,none,[],none⟩ with hp
  have hlook : e.pipelines.lookup p.key = none := by
    rw [List.lookup_eq_none_iff]
    intro x hx
    rw [bne_iff_ne]
    intro hkey
    exact hnew x hx (by rw [← hkey, hp]; rfl)
  obtain ⟨-,-,f,hreplay⟩ := bindPipeline_replay hminted p
  have hbuilt : (e.builtAt d p.key).getD p = p := by simp [builtAt, hlook]
  rw [hbuilt] at hreplay
  let b := e.binds d
  refine ⟨(((e.bindPipeline p).emit (.setViewport screenState.viewport)).emit
    (.setScissor screenState.scissor)).emit (.drawAuto 3),⟨b.currentRt,p,.auto 3,b.vertexBuffers,
    b.storageBinds,b.constBinds,b.textureBinds,some screenState.viewport,
    some screenState.scissor⟩,rfl,rfl,?_⟩
  have hguards : ∀ b : Binds, b.guardsOk p = true := by
    intro b
    simp [Binds.guardsOk, hp, hostPipeline, HostShader.buffers]
  simp only [Exec.emit, replay_append, hreplay]
  simp [Replay.run, Replay.step, Replay.bind, Binds.accept, Replay.update, Replay.closes, Binds.record, hguards, b,
    binds]

end Exec

/-- A draw packet given up on that binds nothing is not seen by the packets that follow, if no
later draw finds something else in what it cached; one that bound anything is seen by some. The
second half is about a packet with no target or texture left bound before it by an earlier
packet given up on, which could have been the same. -/
theorem givenUp_invisible {T : Toolchain} {d : Display} {e₀ e e' : Exec}
    (hsession : Session T e₀ d) {before : List Packet} (hbefore : e₀.walk T before = some e)
    {p : Packet} (hp : p.isDraw) (hhandle : e.handle T p = some e') (hgivenUp : GivenUp e e') :
    (p.BindsNothing T e → ∀ more, e.WalkAll T (p.Spares T e) more → InvisibleIn T d e e' more) ∧
      ((e.binds d).currentRt = none → (e.binds d).textureBinds = [] →
        (∀ more, InvisibleIn T d e e' more) → p.BindsNothing T e) := by
  have hminted := hsession.minted.walk hbefore
  have hsync := hsession.inSync.walk hbefore
  refine ⟨fun hnothing more hspares out out' hout hout' => ?_,fun hrt htex hinvisible => ?_⟩
  · have hrel : out'.renderTargets = out.renderTargets ∧
        (replayCommandList d out'.cmds).passes = (replayCommandList d out.cmds).passes := by
      rcases Exec.handle_givenUp hp hhandle hgivenUp with ⟨-,rfl⟩ | ⟨i,ready,hi,hsetup,hiff⟩
      · rw [hout] at hout'
        cases hout'
        exact ⟨rfl,rfl⟩
      · have hcaches := Exec.setupDraw_nothing hminted (hiff.mp hnothing) hsetup
        have hwalk := (hcaches.sim hminted).walk
          (fun hsim hok => hcaches.suits hminted hsim (hok i hi)) hspares
        rw [hout, hout', Option.rel_some_some] at hwalk
        exact ⟨hwalk.renderTargets.symm,hwalk.replay.passes.symm⟩
    exact ⟨⟨id,Function.injective_id,by simp [RecordedPass.rename_id, hrel.2]⟩,hrel.1⟩
  · by_contra hsome
    rcases Exec.handle_givenUp hp hhandle hgivenUp with ⟨hnothing,-⟩ | ⟨i,ready,-,hsetup,hiff⟩
    · exact hsome hnothing
    have hlt := Exec.setupDraw_weight hsync hminted hrt htex (fun h => hsome (hiff.mpr h)) hsetup
    have hpasses := (Exec.Onward.setupDraw (d := d) hsetup).passes
    have hminted' : e'.Minted d := by
      have hone : e.walk T [p] = some e' := by simp [Exec.walk, hhandle]
      exact hminted.walk hone
    obtain ⟨n,hn⟩ := Infinite.exists_notMem_finset
      ((e.pipelines ++ e'.pipelines).map fun x => x.1.state.blendControl).toFinset
    have hnew : ∀ x ∈ e.pipelines ++ e'.pipelines, x.1.state.blendControl ≠ n := by
      rintro x hx rfl
      exact hn (List.mem_toFinset.mpr (List.mem_map_of_mem hx))
    obtain ⟨out,pass,hwalk,hweight,hout⟩ := Exec.walk_probe T hminted fun x hx =>
      hnew x (List.mem_append_left _ hx)
    obtain ⟨out',pass',hwalk',hweight',hout'⟩ := Exec.walk_probe T hminted' fun x hx =>
      hnew x (List.mem_append_right _ hx)
    obtain ⟨⟨f,-,hsame⟩,-⟩ := hinvisible _ _ _ hwalk hwalk'
    rw [hout, hout', List.map_append, hpasses] at hsame
    have hlast : pass'.rename f = pass := by
      simpa using (List.append_inj hsame (by simp)).2
    have hrename := pass'.weight_rename f
    rw [hlast] at hrename
    omega

/-- A draw whose vertex range does not resolve. -/
def streamlessDraw : DrawInputs := { streamDraw with vertexRanges := fun _ => [] }

lemma resolveShaders_streamDraw :
    (bootExec.resolveShaders moveTools streamDraw.bound).1 = some (streamVs,embeddedPs) := by
  decide +kernel

/-- It is given up on with its pipeline bound, which the draw that follows shares. -/
theorem givenUp_invisible_streamless :
    ∃ e', bootExec.handle moveTools (.drawIndexAuto streamlessDraw 3) = some e' ∧
      e'.cmds = [.createPipeline 1 streamPipeline,.bindPipeline 1] ∧ e'.shaders.length = 1 ∧
      InvisibleIn moveTools emptyDisplay bootExec e' [.drawIndexAuto streamDraw 3] := by
  have hrun : (bootExec.handle moveTools (.drawIndexAuto streamlessDraw 3)).map
      (fun e => (e.cmds,e.shaders.length)) =
        some ([.createPipeline 1 streamPipeline,.bindPipeline 1],1) := by decide +kernel
  obtain ⟨e',hhandle,heq⟩ := Option.map_eq_some_iff.mp hrun
  obtain ⟨hcmds,hshaders⟩ := Prod.mk.inj heq
  have hgivenUp : GivenUp bootExec e' := by
    rw [GivenUp, hcmds]
    rfl
  have hstart : bootExec.walk moveTools [] = some bootExec := rfl
  refine ⟨e',hhandle,hcmds,hshaders,
    (givenUp_invisible (session_bootExec _) hstart rfl hhandle hgivenUp).1 ?_ _ ?_⟩
  · have hpair : (bootExec.resolveShaders moveTools streamlessDraw.bound).1 = some (streamVs,embeddedPs) :=
      resolveShaders_streamDraw
    simp only [Packet.BindsNothing, DrawInputs.BindsNothing, hpair]
    exact ⟨rfl,.inr ⟨rfl,rfl,rfl,rfl⟩⟩
  · refine ⟨fun j hj i hi => ?_,fun _ _ => trivial⟩
    cases hj
    cases hi
    refine ⟨fun {stage stage' t t'} ht _ ht' _ _ => ?_,fun _ _ _ _ _ => rfl⟩
    cases stage with
    | pixel => cases ht
    | vertex =>
      cases stage' with
      | pixel => cases ht'
      | vertex =>
        have hsame := ht.symm.trans ht'
        simpa using hsame.symm

/-- A draw into an offscreen target. -/
def offscreenDraw : DrawInputs :=
  { Exec.probe 0 with
    drawState := some { screenState with target := ⟨64,64,.offscreen 0x10000 0x4000⟩ } }

/-- An indexed draw into an offscreen target without an index buffer is given up on, and
the next draw to the videoout goes to that target instead. -/
theorem not_invisible_offscreen :
    ¬∀ (T : Toolchain) (d : Display) (e₀ e e' : Exec) (before more : List Packet) (p : Packet),
        Session T e₀ d → e₀.walk T before = some e → p.isDraw → e.handle T p = some e' →
          GivenUp e e' → InvisibleIn T d e e' more := by
  intro h
  have hrun : ((bootExec.handle moveTools (.drawIndex2 offscreenDraw (some (0,0,3)))).bind fun e' =>
      (e'.walk moveTools [.drawIndexAuto (Exec.probe 0) 3]).map fun out =>
        decide (GivenUp bootExec e' ∧
          (replayCommandList emptyDisplay out.cmds).passes.map (·.target) = [some 1])) = some true := by
    decide +kernel
  obtain ⟨e',hhandle,hrun⟩ := Option.bind_eq_some_iff.mp hrun
  obtain ⟨out',hout',hdecide⟩ := Option.map_eq_some_iff.mp hrun
  obtain ⟨hgivenUp,htarget'⟩ := of_decide_eq_true hdecide
  have hwithout : (bootExec.walk moveTools [.drawIndexAuto (Exec.probe 0) 3]).map (fun out =>
      (replayCommandList emptyDisplay out.cmds).passes.map (·.target)) = some [none] := by
    decide +kernel
  obtain ⟨out,hout,htarget⟩ := Option.map_eq_some_iff.mp hwithout
  have hinvisible := h moveTools emptyDisplay bootExec bootExec e' [] [.drawIndexAuto (Exec.probe 0) 3] _
    (session_bootExec _) rfl rfl hhandle hgivenUp
  obtain ⟨⟨f,-,hpasses⟩,-⟩ := hinvisible out out' hout hout'
  have hsame : (replayCommandList emptyDisplay out'.cmds).passes.map (fun p => p.target.map f) =
      [none] := by
    rw [← htarget, ← hpasses, List.map_map]
    rfl
  have hrenamed := congrArg (List.map (Option.map f)) htarget'
  rw [List.map_map] at hrenamed
  exact absurd (hrenamed.symm.trans hsame) (by simp)

end Unemups4.Gnm
