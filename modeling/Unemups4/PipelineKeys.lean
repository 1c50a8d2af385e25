import Unemups4.DeferredDraw

/-! Pipelines under the key of the source, which names a shader by a hash of where it is
bound from. A pipeline is created once for a key and never dropped. -/
namespace Unemups4.Gnm
open Gcn Fallible ShaderBinary

namespace BackendCmd

/-- The pipeline that a command creates. -/
def creates : BackendCmd → Option (ℕ × HostPipeline)
  | createPipeline id p => some (id,p)
  | _ => none

/-- The pipeline that a command binds. -/
def bindsId : BackendCmd → Option ℕ
  | bindPipeline id => some id
  | _ => none

end BackendCmd

/-- The provider and the pipeline cache, with the pipelines created so far and, for each draw
that got so far, the id it bound and what it wanted built. -/
structure Renderer where
  provider : GcnShaderProvider
  pipelines : List (PipelineKey × ℕ)
  nextPipeline : ℕ
  created : List (ℕ × HostPipeline)
  bound : List (ℕ × HostPipeline)

namespace Renderer

variable (T : Toolchain)

def boot (bytes : ℕ → UInt8) (readable : ℕ → ℕ → Bool) : Renderer :=
  ⟨.boot bytes readable,[],1,[],[]⟩

/-- The pipeline that a draw comes to, over the targets registered before it. -/
def wanted (g : Renderer) (rts : List RegisteredRt) (d : DrawInputs) : Option HostPipeline := do
  let (vs,ps) ← (T.resolvePair g.provider d.bound).1
  let draw ← d.drawState
  let r ← d.resolve rts vs ps
  return hostPipeline d.bound vs ps draw r

/-- `PipelineCache::get_or_mint`, with the create of a miss. -/
def getOrMint (g : Renderer) (build : HostPipeline) : ℕ × Renderer :=
  match g.pipelines.lookup build.key with
  | some id => (id,g)
  | none =>
      (g.nextPipeline,{ g with
        pipelines := (build.key,g.nextPipeline) :: g.pipelines
        nextPipeline := g.nextPipeline+1
        created := g.created ++ [(g.nextPipeline,build)] })

def bind (g : Renderer) (build : HostPipeline) : Renderer :=
  let (id,g) := g.getOrMint build
  { g with bound := g.bound ++ [(id,build)] }

/-- A draw as far as its pipeline goes. -/
def draw (g : Renderer) (rts : List RegisteredRt) (d : DrawInputs) : Renderer :=
  let g' := { g with provider := (T.resolvePair g.provider d.bound).2 }
  match g.wanted T rts d with
  | some build => g'.bind build
  | none => g'

/-- Draws, guest writes and drains, over draws that are all `ok`. -/
inductive Run (ok : Renderer → DrawInputs → Prop) : Renderer → Prop
  | boot (bytes : ℕ → UInt8) (readable : ℕ → ℕ → Bool) : Run ok (boot bytes readable)
  | write {g : Renderer} (addr : ℕ) (data : Bytes) : Run ok g → addr+data.length ≤ u64Max →
      Run ok { g with provider := g.provider.write addr data }
  | drain {g : Renderer} : Run ok g → Run ok { g with provider := g.provider.drain }
  | draw {g : Renderer} (rts : List RegisteredRt) (d : DrawInputs) : Run ok g → ok g d →
      Run ok (g.draw T rts d)

section Executor

variable {T} {g : Renderer}

/-- The second executor has the provider, the pipeline cache and the pipeline commands of the
first. -/
structure Beside (e e' : Exec) : Prop where
  provider : e'.provider = e.provider
  cached : e'.pipelines = e.pipelines ∧ e'.nextPipeline = e.nextPipeline
  creates : e'.cmds.filterMap BackendCmd.creates = e.cmds.filterMap BackendCmd.creates
  binds : e'.cmds.filterMap BackendCmd.bindsId = e.cmds.filterMap BackendCmd.bindsId

namespace Beside

open Exec

variable {e e' e'' : Exec}

lemma refl (e : Exec) : Beside e e := ⟨rfl,⟨rfl,rfl⟩,rfl,rfl⟩

lemma trans (h : Beside e e') (h' : Beside e' e'') : Beside e e'' where
  provider := h'.provider.trans h.provider
  cached := ⟨h'.cached.1.trans h.cached.1,h'.cached.2.trans h.cached.2⟩
  creates := h'.creates.trans h.creates
  binds := h'.binds.trans h.binds

lemma emit (h : Beside e e') {cmd : BackendCmd} (hcreates : cmd.creates = none)
    (hbinds : cmd.bindsId = none) : Beside e (e'.emit cmd) :=
  h.trans ⟨rfl,⟨rfl,rfl⟩,by simp [Exec.emit, hcreates],by simp [Exec.emit, hbinds]⟩

lemma of_taken {id : ℕ} (h : e.Taken id e') : Beside e e' := by
  obtain ⟨r,hr⟩ := h
  obtain rfl := congrArg Prod.snd hr
  have hcreates : (r.2.2.map BackendCmd.resource).filterMap BackendCmd.creates = [] := by
    simp [List.filterMap_map, BackendCmd.creates, Function.comp_def]
  have hbinds : (r.2.2.map BackendCmd.resource).filterMap BackendCmd.bindsId = [] := by
    simp [List.filterMap_map, BackendCmd.bindsId, Function.comp_def]
  exact ⟨rfl,⟨rfl,rfl⟩,by simp only [Exec.take, List.filterMap_append, hcreates, List.append_nil],
    by simp only [Exec.take, List.filterMap_append, hbinds, List.append_nil]⟩

lemma bindTexture {now : ℕ} {b : SamplerBinding × TextureSource}
    (h : e.bindTexture T now b = some e') : Beside e e' := by
  obtain ⟨⟨imageId,e₁⟩,himage,h⟩ := Option.bind_eq_some_iff.mp h
  obtain ⟨⟨samplerId,e₂⟩,hsampler,rfl⟩ := Option.map_eq_some_iff.mp h
  exact ((of_taken (fetchImage_taken himage)).trans (of_taken (fetchSampler_taken hsampler))).emit
    rfl rfl

lemma bindConst {now : ℕ} {c : ConstBufferBinding × BufferRange} (h : e.bindConst now c = some e') :
    Beside e e' := by
  obtain ⟨⟨id,e₁⟩,hget,rfl⟩ := Option.map_eq_some_iff.mp h
  exact (of_taken (fetch_taken hget)).emit rfl rfl

lemma bindStorage {now : ℕ} {b : ℕ × BufferBinding × BufferRange}
    (h : e.bindStorage now b = some e') : Beside e e' := by
  obtain ⟨⟨id,e₁⟩,hget,rfl⟩ := Option.map_eq_some_iff.mp h
  exact (of_taken (fetch_taken hget)).emit rfl rfl

lemma bindVertex {now : ℕ} {b : ℕ × BufferRange} (h : e.bindVertex now b = some e') :
    Beside e e' := by
  obtain ⟨⟨id,e₁⟩,hget,rfl⟩ := Option.map_eq_some_iff.mp h
  exact (of_taken (fetch_taken hget)).emit rfl rfl

lemma bindAll {α : Type} {bind : Exec → α → Option Exec}
    (hbind : ∀ {e a e'}, bind e a = some e' → Beside e e') {as : List α}
    (h : Exec.bindAll bind e as = some e') : Beside e e' :=
  bindAll_induct (P := Beside e) (fun _ _ _ _ hx hb => hx.trans (hbind hb)) (refl e) h

lemma bindBuffers {i : DrawInputs} {vs : HostShader} {bound : Bool}
    (h : e.bindBuffers i vs = some (e',bound)) : Beside e e' := by
  unfold Exec.bindBuffers at h
  split_ifs at h
  · cases h
    exact refl e
  · obtain ⟨e₁,hall,heq⟩ := Option.map_eq_some_iff.mp h
    cases heq
    exact bindAll bindStorage hall
  · obtain ⟨e₁,hall,heq⟩ := Option.map_eq_some_iff.mp h
    cases heq
    exact bindAll bindVertex hall

lemma commitTarget (e : Exec) (target : TargetDesc) : Beside e (e.commitTarget target) := by
  unfold Exec.commitTarget
  cases target.kind with
  | videoout => exact refl e
  | offscreen base size => exact ⟨rfl,⟨rfl,rfl⟩,rfl,rfl⟩

lemma registerRenderTarget {target : TargetDesc} (h : e.registerRenderTarget target = some e') :
    Beside e e' := by
  unfold Exec.registerRenderTarget at h
  cases hkind : target.kind with
  | videoout =>
    rw [hkind] at h
    cases h
    exact refl e
  | offscreen base size =>
    rw [hkind] at h
    obtain ⟨⟨id,e₁⟩,hget,rfl⟩ := Option.map_eq_some_iff.mp h
    exact (of_taken (fetchRenderTarget_taken hget)).emit rfl rfl

/-- Past its pipeline a draw has no part in it. -/
lemma bindDraw {i : DrawInputs} {vs ps : HostShader} {draw : DrawState} {r : Resolved} {ready : Bool}
    (h : e.bindDraw T i vs ps draw r = some (e',ready)) :
    Beside (e.bindPipeline (hostPipeline i.bound vs ps draw r)) e' := by
  simp only [Exec.bindDraw, Option.bind_eq_bind, Option.pure_def] at h
  obtain ⟨e₁,htex,h⟩ := Option.bind_eq_some_iff.mp h
  obtain ⟨e₂,hconst,h⟩ := Option.bind_eq_some_iff.mp h
  obtain ⟨⟨e₃,bound⟩,hbuf,h⟩ := Option.bind_eq_some_iff.mp h
  have hbeside := ((bindAll bindTexture htex).trans (bindAll bindConst hconst)).trans (bindBuffers hbuf)
  split_ifs at h
  · cases h
    exact ((hbeside.trans (commitTarget e₃ draw.target)).emit rfl rfl).emit rfl rfl
  · cases h
    exact hbeside

lemma issue {now : ℕ} {t : IndexType} {shape : DrawShape} (h : e.issue now t shape = some e') :
    Beside e e' := by
  cases shape with
  | auto count =>
    cases h
    exact (refl e).emit rfl rfl
  | indexed base count =>
    simp only [Exec.issue, Exec.drawIndexed] at h
    split_ifs at h
    · cases h
      exact refl e
    · obtain ⟨⟨id,e₁⟩,hget,rfl⟩ := Option.map_eq_some_iff.mp h
      exact (of_taken (fetch_taken hget)).emit rfl rfl

end Beside

/-- The renderer is the executor's part in pipelines, after the lists of earlier submissions. -/
structure Follows (before : List BackendCmd) (e : Exec) (g : Renderer) : Prop where
  provider : e.provider = { g.provider with watched := [], log := [] }
  cached : g.pipelines = e.pipelines ∧ g.nextPipeline = e.nextPipeline
  created : g.created = (before ++ e.cmds).filterMap BackendCmd.creates
  bound : g.bound.map Prod.fst = (before ++ e.cmds).filterMap BackendCmd.bindsId

/-- The chain looks neither at what is watched nor at the log. -/
lemma resolveRef_frame (p : GcnShaderProvider) (watched log : List (ℕ × ℕ)) (b : Option ShaderRef) :
    ∃ watched', T.resolveRef { p with watched := watched, log := log } b =
      ((T.resolveRef p b).1,{ (T.resolveRef p b).2 with watched := watched', log := log }) := by
  rcases b with _ | ⟨stage,id⟩ | r
  · exact ⟨watched,rfl⟩
  · exact ⟨watched,rfl⟩
  · simp only [Toolchain.resolveRef, GcnShaderProvider.resolve]
    rw [show ({ p with watched := watched, log := log } : GcnShaderProvider).read = p.read from rfl]
    cases parseSb p.read r.addr with
    | error e => exact ⟨watched,rfl⟩
    | ok sb =>
      have hrecompile : ({ p with watched := watched, log := log } : GcnShaderProvider).recompileSb
          T.recompiler r sb = p.recompileSb T.recompiler r sb := rfl
      simp only [hrecompile]
      cases p.cache.lookup (.fromSb sb r.psInputMap) with
      | some entry => exact ⟨watched,rfl⟩
      | none => cases p.recompileSb T.recompiler r sb with
        | error e => exact ⟨watched,rfl⟩
        | ok host => exact ⟨watched ++ [(sb.codeStart,sb.codeEnd-sb.codeStart)],rfl⟩

lemma resolvePair_frame (p : GcnShaderProvider) (watched log : List (ℕ × ℕ)) (b : BoundShaders) :
    ∃ watched', T.resolvePair { p with watched := watched, log := log } b =
      ((T.resolvePair p b).1,{ (T.resolvePair p b).2 with watched := watched', log := log }) := by
  obtain ⟨w₁,hvs⟩ := resolveRef_frame (T := T) p watched log b.vs
  obtain ⟨w₂,hps⟩ := resolveRef_frame (T := T) (T.resolveRef p b.vs).2 w₁ log b.ps
  exact ⟨w₂,by simp only [Toolchain.resolvePair, hvs, hps]⟩

lemma resolvePair_memory (p : GcnShaderProvider) (b : BoundShaders) :
    (T.resolvePair p b).2.bytes = p.bytes ∧ (T.resolvePair p b).2.readable = p.readable := by
  have hone : ∀ (p : GcnShaderProvider) (b : Option ShaderRef),
      (T.resolveRef p b).2.bytes = p.bytes ∧ (T.resolveRef p b).2.readable = p.readable := by
    intro p b
    rcases b with _ | ⟨stage,id⟩ | r
    · exact ⟨rfl,rfl⟩
    · exact ⟨rfl,rfl⟩
    · simp only [Toolchain.resolveRef, GcnShaderProvider.resolve]
      split
      · exact ⟨rfl,rfl⟩
      · split
        · exact ⟨rfl,rfl⟩
        · split <;> exact ⟨rfl,rfl⟩
  obtain ⟨hbytes,hreadable⟩ := hone p b.vs
  obtain ⟨hbytes',hreadable'⟩ := hone (T.resolveRef p b.vs).2 b.ps
  exact ⟨hbytes'.trans hbytes,hreadable'.trans hreadable⟩

namespace Follows

variable {before : List BackendCmd} {e e' : Exec}

lemma beside (h : g.Follows before e) (hbeside : Beside e e') : g.Follows before e' where
  provider := hbeside.provider.trans h.provider
  cached := ⟨h.cached.1.trans hbeside.cached.1.symm,h.cached.2.trans hbeside.cached.2.symm⟩
  created := by rw [h.created, List.filterMap_append, List.filterMap_append, hbeside.creates]
  bound := by rw [h.bound, List.filterMap_append, List.filterMap_append, hbeside.binds]

lemma bind (h : g.Follows before e) (p : HostPipeline) : (g.bind p).Follows before (e.bindPipeline p) := by
  obtain ⟨hprovider,⟨hpipelines,hnext⟩,hcreated,hbound⟩ := h
  unfold Renderer.bind Renderer.getOrMint Exec.bindPipeline
  rw [hpipelines]
  cases e.pipelines.lookup p.key with
  | some id =>
    refine ⟨hprovider,⟨hpipelines,hnext⟩,?_,?_⟩
    · simp [hcreated, Exec.emit, BackendCmd.creates]
    · simp [hbound, Exec.emit, BackendCmd.bindsId]
  | none =>
    refine ⟨hprovider,⟨by simp [Exec.emit, hnext],by simp [Exec.emit, hnext]⟩,?_,?_⟩
    · simp [hcreated, hnext, Exec.emit, BackendCmd.creates]
    · simp [hbound, hnext, Exec.emit, BackendCmd.bindsId, List.filterMap_cons]

lemma resolve (h : g.Follows before e) (b : BoundShaders) :
    (T.resolvePair g.provider b).1 = (e.resolveShaders T b).1 ∧
      Follows before (e.resolveShaders T b).2 { g with provider := (T.resolvePair g.provider b).2 } := by
  obtain ⟨watched,hpair⟩ := resolvePair_frame (T := T) g.provider [] [] b
  obtain ⟨hbytes,hreadable⟩ := resolvePair_memory (T := T) g.provider b
  have hprovider := h.provider
  rw [← hprovider] at hpair
  refine ⟨by rw [Exec.resolveShaders, hpair],?_,h.cached,h.created,h.bound⟩
  have hcache : (T.resolvePair e.provider b).2.cache = (T.resolvePair g.provider b).2.cache := by
    rw [hpair]
  have hsame : e.bytes = (T.resolvePair g.provider b).2.bytes ∧
      e.readable = (T.resolvePair g.provider b).2.readable :=
    ⟨(congrArg (·.bytes) hprovider).trans hbytes.symm,
      (congrArg (·.readable) hprovider).trans hreadable.symm⟩
  change GcnShaderProvider.mk (T.resolvePair e.provider b).2.cache e.bytes e.readable [] [] = _
  rw [hcache, hsame.1, hsame.2]

lemma draw (h : g.Follows before e) {i : DrawInputs} {ready : Bool}
    (hsetup : e.setupDraw T i = some (e',ready)) :
    (g.draw T e.renderTargets i).Follows before e' := by
  obtain ⟨hpair,hresolved⟩ := h.resolve (T := T) i.bound
  simp only [Renderer.draw, Renderer.wanted, hpair]
  simp only [Exec.setupDraw] at hsetup
  cases hshaders : (e.resolveShaders T i.bound).1 with
  | none =>
    rw [hshaders] at hsetup
    cases hsetup
    exact hresolved
  | some pair =>
    obtain ⟨vs,ps⟩ := pair
    rw [hshaders] at hsetup
    cases hdraw : i.drawState with
    | none =>
      rw [hdraw] at hsetup
      cases hsetup
      exact hresolved
    | some draw =>
      rw [hdraw] at hsetup
      obtain ⟨e₁,hreg,hsetup⟩ := Option.bind_eq_some_iff.mp hsetup
      have htargets : e₁.renderTargets = e.renderTargets :=
        (Exec.registerRenderTarget_renderTargets hreg).trans rfl
      have hbound := hresolved.beside (Beside.registerRenderTarget hreg)
      rw [htargets] at hsetup
      cases hr : i.resolve e.renderTargets vs ps with
      | none =>
        rw [hr] at hsetup
        cases hsetup
        simpa [hr] using hbound
      | some r =>
        rw [hr] at hsetup
        simpa [hr] using (hbound.bind _).beside (Beside.bindDraw hsetup)

/-- The drained writes of a submission are those in the log; its list starts empty. -/
theorem submit (h : g.Follows before e) (index : IndexState) :
    Follows (before ++ e.cmds) { e.applyDirty g.provider.log with index := index, cmds := [] }
      { g with provider := g.provider.drain } where
  provider := by
    have hcache : e.shaders = g.provider.cache := congrArg (·.cache) h.provider
    have hsame : e.bytes = g.provider.bytes ∧ e.readable = g.provider.readable :=
      ⟨congrArg (·.bytes) h.provider,congrArg (·.readable) h.provider⟩
    simp only [Exec.provider, Exec.applyDirty, GcnShaderProvider.drain, GcnShaderProvider.touched, hcache,
      hsame.1, hsame.2]
  cached := h.cached
  created := by rw [h.created, List.append_nil]
  bound := by rw [h.bound, List.append_nil]

lemma write (h : g.Follows before e) (addr : ℕ) (data : Bytes) :
    Follows before { e with bytes := Machine.writeAt e.bytes addr data }
      { g with provider := g.provider.write addr data } where
  provider := by
    have hcache : e.shaders = g.provider.cache := congrArg (·.cache) h.provider
    have hsame : e.bytes = g.provider.bytes ∧ e.readable = g.provider.readable :=
      ⟨congrArg (·.bytes) h.provider,congrArg (·.readable) h.provider⟩
    simp only [Exec.provider, GcnShaderProvider.write, hcache, hsame.1, hsame.2]
  cached := h.cached
  created := h.created
  bound := h.bound

/-- A packet of the executor is at most one step of the renderer. -/
lemma handle {ok : Renderer → DrawInputs → Prop} (hrun : Run T ok g) (h : g.Follows before e) {p : Packet}
    (hok : ∀ i, p.inputs = some i → ok g i)
    (hdma : ∀ src dst len, p = .dmaData src dst len → dst+len ≤ u64Max)
    (hp : e.handle T p = some e') : ∃ g', Run T ok g' ∧ g'.Follows before e' := by
  have hdraw : ∀ i shape, p.draw e.index = some (i,shape) → p.inputs = some i →
      ∃ g', Run T ok g' ∧ g'.Follows before e' := by
    intro i shape hshape hinputs
    rw [Exec.handle_draw hshape] at hp
    obtain ⟨⟨e₁,ready⟩,hsetup,hp⟩ := Option.bind_eq_some_iff.mp hp
    refine ⟨_,hrun.draw e.renderTargets i (hok i hinputs),?_⟩
    have h₁ := h.draw hsetup
    cases ready with
    | true => exact h₁.beside (Beside.issue hp)
    | false =>
      cases hp
      exact h₁
  cases p with
  | drawIndexAuto i count => exact hdraw i _ rfl rfl
  | drawIndex2 i body | drawIndexOffset2 i body =>
    cases body with
    | none =>
      cases hp
      exact ⟨g,hrun,h⟩
    | some b => exact hdraw i _ rfl rfl
  | indexType t | indexBase base | indexBufferSize maxSize =>
    cases hp
    exact ⟨g,hrun,h.beside ⟨rfl,⟨rfl,rfl⟩,rfl,rfl⟩⟩
  | acquireMem base size =>
    cases hp
    refine ⟨g,hrun,h.beside ?_⟩
    split_ifs <;> exact ⟨rfl,⟨rfl,rfl⟩,rfl,rfl⟩
  | dmaData src dst len =>
    cases hp
    unfold Exec.dmaData
    cases hread : e.read src len with
    | none =>
      split_ifs <;> exact ⟨g,hrun,h⟩
    | some data =>
      simp only
      split_ifs
      · exact ⟨g,hrun,h⟩
      · have hlen : data.length = len := by
          simp only [Exec.read] at hread
          split_ifs at hread
          cases hread
          simp [bytesAt]
        exact ⟨_,hrun.write dst data (hlen ▸ hdma src dst len rfl),h.write dst data⟩
      · exact ⟨g,hrun,h⟩

/-- The packets of a submission are steps of the renderer, all of them or up to the first draw that
is not `ok`. -/
theorem walk {ok : Renderer → DrawInputs → Prop} {ps : List Packet} (hrun : Run T ok g)
    (h : g.Follows before e) (hdma : ∀ src dst len, .dmaData src dst len ∈ ps → dst+len ≤ u64Max)
    (hp : e.walk T ps = some e') :
    (∃ g', Run T ok g' ∧ g'.Follows before e') ∨
      ∃ ps₁ p ps₂ e₁ g₁ i, ps = ps₁ ++ p :: ps₂ ∧ e.walk T ps₁ = some e₁ ∧ Run T ok g₁ ∧
        g₁.Follows before e₁ ∧ p.inputs = some i ∧ ¬ok g₁ i := by
  induction ps generalizing e g with
  | nil =>
    cases hp
    exact .inl ⟨g,hrun,h⟩
  | cons p ps ih =>
    by_cases hok : ∀ i, p.inputs = some i → ok g i
    · obtain ⟨e₁,hhandle,hwalk⟩ := Option.bind_eq_some_iff.mp hp
      obtain ⟨g₁,hrun₁,h₁⟩ := h.handle hrun hok
        (fun src dst len heq => hdma src dst len (heq ▸ List.mem_cons_self)) hhandle
      have hrest := ih hrun₁ h₁
        (fun src dst len hmem => hdma src dst len (List.mem_cons_of_mem _ hmem)) hwalk
      rcases hrest with hall | ⟨ps₁,q,ps₂,e₂,g₂,i,rfl,hwalk₂,hrun₂,h₂,hq,hnot⟩
      · exact .inl hall
      · refine .inr ⟨p :: ps₁,q,ps₂,e₂,g₂,i,rfl,?_,hrun₂,h₂,hq,hnot⟩
        rw [Exec.walk, hhandle]
        exact hwalk₂
    · push Not at hok
      obtain ⟨i,hi,hnot⟩ := hok
      exact .inr ⟨[],p,ps,e,g,i,rfl,rfl,hrun,h,hi,hnot⟩

end Follows

end Executor

/-- Every bind names an id that was created once, with what its draw wanted. -/
def BindsWanted (g : Renderer) : Prop :=
  ∀ b ∈ g.bound, b ∈ g.created ∧ ∀ build, (b.1,build) ∈ g.created → build = b.2

/-- What is in guest memory for two shader hashes and a register state. -/
abbrev Assignment := UInt64 → UInt64 → PipelineState → ShaderStage → Option BoundText

/-- A draw whose binaries nothing was written over: what the cache holds for them has no write
to its code waiting and was made from the code and the fetch code that they have, and the
hashes and the register state come with what they come with at every draw. -/
structure Settled (assigned : Assignment) (g : Renderer) (d : DrawInputs) : Prop where
  untouched : ∀ stage r, d.bound.get stage = some (.gcnBinary r) → ∀ sb entry,
    parseSb g.provider.read r.addr = .ok sb →
    g.provider.cache.lookup (.fromSb sb r.psInputMap) = some entry →
    g.provider.touched entry = false
  current : ∀ stage r, d.bound.get stage = some (.gcnBinary r) → g.provider.Matches T.recompiler r
  assigned : ∀ draw, d.drawState = some draw → T.texts g.provider.read d.bound =
    assigned (d.bound.hash .vertex) (d.bound.hash .pixel) draw.pipeline

/-- The shaders of a key, recompiled from what is assigned to it. -/
def Assignment.shaders (assigned : Assignment) (key : PipelineKey) : Option (HostShader × HostShader) :=
  T.pairHost (fun _ => none) (assigned key.vsHash key.psHash key.state)

/-- A pipeline of its key's shaders. -/
def Assignment.Describes (assigned : Assignment) (build : HostPipeline) : Prop :=
  ∃ pair, assigned.shaders T build.key = some pair ∧ build = .ofKey build.key pair.1 pair.2

/-- An id is created once, and every cached id was created for its key's shaders. -/
structure Kept (assigned : Assignment) (g : Renderer) : Prop where
  coherent : g.provider.Coherent T.recompiler
  fresh : ∀ c ∈ g.created, c.1 < g.nextPipeline
  once : ∀ id build build', (id,build) ∈ g.created → (id,build') ∈ g.created → build = build'
  known : ∀ p ∈ g.pipelines, ∃ build, build.key = p.1 ∧ (p.2,build) ∈ g.created ∧
    assigned.Describes T build
  wanted : ∀ b ∈ g.bound, b ∈ g.created

variable {T} {assigned : Assignment} {g : Renderer}

/-- A key has one pipeline. -/
lemma Assignment.Describes.unique {build build' : HostPipeline} (h : assigned.Describes T build)
    (h' : assigned.Describes T build') (hkey : build.key = build'.key) : build = build' := by
  obtain ⟨pair,hpair,heq⟩ := h
  obtain ⟨pair',hpair',heq'⟩ := h'
  rw [hkey, hpair', Option.some.injEq] at hpair
  rw [heq, heq', hkey, hpair]

namespace Kept

lemma boot (bytes : ℕ → UInt8) (readable : ℕ → ℕ → Bool) :
    Kept T assigned (Renderer.boot bytes readable) where
  coherent := .boot bytes readable
  fresh := by simp [Renderer.boot]
  once := by simp [Renderer.boot]
  known := by simp [Renderer.boot]
  wanted := by simp [Renderer.boot]

lemma bindsWanted (h : g.Kept T assigned) : g.BindsWanted :=
  fun b hb => ⟨h.wanted b hb,fun build hbuild => h.once b.1 build b.2 hbuild (h.wanted b hb)⟩

/-- Of the provider only its coherence matters. -/
lemma provide (h : g.Kept T assigned) {p : GcnShaderProvider} (hp : p.Coherent T.recompiler) :
    Kept T assigned { g with provider := p } := ⟨hp,h.fresh,h.once,h.known,h.wanted⟩

lemma getOrMint (h : g.Kept T assigned) {build : HostPipeline} (hbuild : assigned.Describes T build) :
    (g.getOrMint build).2.Kept T assigned ∧
      ((g.getOrMint build).1,build) ∈ (g.getOrMint build).2.created := by
  unfold Renderer.getOrMint
  split
  next id hlookup =>
    obtain ⟨l₁,l₂,heq,-⟩ := List.lookup_eq_some_iff.mp hlookup
    obtain ⟨build',hkey,hcreated,hdescribes⟩ := h.known (build.key,id) (by simp [heq])
    obtain rfl := hdescribes.unique hbuild hkey
    exact ⟨h,hcreated⟩
  next =>
    refine ⟨⟨h.coherent,fun c hc => ?_,fun id b b' hb hb' => ?_,fun p hp => ?_,fun b hb => ?_⟩,by simp⟩
    · rcases List.mem_append.mp hc with hc | hc
      · exact (h.fresh c hc).trans (Nat.lt_succ_self _)
      · obtain rfl := List.mem_singleton.mp hc
        exact Nat.lt_succ_self _
    · simp only [List.mem_append, List.mem_singleton, Prod.mk.injEq] at hb hb'
      rcases hb with hb | ⟨rfl,rfl⟩ <;> rcases hb' with hb' | ⟨hid,rfl⟩
      · exact h.once id b b' hb hb'
      · exact absurd (h.fresh _ hb) (by simp [hid])
      · exact absurd (h.fresh _ hb') (lt_irrefl _)
      · rfl
    · rcases List.mem_cons.mp hp with rfl | hp
      · exact ⟨build,rfl,by simp,hbuild⟩
      · obtain ⟨build',hkey,hcreated,hdescribes⟩ := h.known p hp
        exact ⟨build',hkey,List.mem_append_left _ hcreated,hdescribes⟩
    · exact List.mem_append_left _ (h.wanted b hb)

lemma bind (h : g.Kept T assigned) {build : HostPipeline} (hbuild : assigned.Describes T build) :
    (g.bind build).Kept T assigned := by
  obtain ⟨hkept,hcreated⟩ := h.getOrMint hbuild
  refine ⟨hkept.coherent,hkept.fresh,hkept.once,hkept.known,fun b hb => ?_⟩
  rcases List.mem_append.mp hb with hb | hb
  · exact hkept.wanted b hb
  · obtain rfl := List.mem_singleton.mp hb
    exact hcreated

end Kept

lemma coherent_resolveRef {p : GcnShaderProvider} (h : p.Coherent T.recompiler) (b : Option ShaderRef) :
    (T.resolveRef p b).2.Coherent T.recompiler := by
  rcases b with _ | ⟨stage,id⟩ | r
  · exact h
  · exact h
  · exact h.resolve r

lemma coherent_resolvePair {p : GcnShaderProvider} (h : p.Coherent T.recompiler) (b : BoundShaders) :
    (T.resolvePair p b).2.Coherent T.recompiler :=
  coherent_resolveRef (coherent_resolveRef h b.vs) b.ps

/-- A settled draw gets the shaders that an empty cache would give it. -/
lemma Settled.pair (hkept : g.Kept T assigned) {d : DrawInputs} (h : Settled T assigned g d) :
    (T.resolvePair g.provider d.bound).1 =
      T.pairHost (fun _ => none) (T.texts g.provider.read d.bound) := by
  rw [(Toolchain.resolvePair_spec g.provider d.bound).1]
  refine (Toolchain.pairLearn_beyond (x := served g.provider.cache) (by simp)
    fun stage t host ht _ hheld => ?_).1
  obtain ⟨ref,href,htext⟩ := Option.map_eq_some_iff.mp ht
  cases ref with
  | embedded stage' id => cases htext
  | gcnBinary r =>
    obtain ⟨sb,hsb,rfl⟩ := Option.map_eq_some_iff.mp (BoundText.binary.inj htext)
    obtain ⟨entry,hlookup,rfl⟩ := Option.map_eq_some_iff.mp hheld
    cases hparse : parseSb g.provider.read r.addr with
    | error e =>
      rw [hparse] at hsb
      cases hsb
    | ok sb' =>
      rw [hparse] at hsb
      obtain rfl := Option.some.inj hsb
      have huntouched := h.untouched stage r href sb' entry hparse hlookup
      have hrecompiled :=
        hkept.coherent.recompileSb_eq hparse hlookup huntouched (h.current stage r href)
      rw [← Toolchain.recompileSb_toOption, hrecompiled]
      rfl

/-- What a settled draw wants is described by what is assigned to its key. -/
lemma Settled.describes (hkept : g.Kept T assigned) {rts : List RegisteredRt} {d : DrawInputs}
    (h : Settled T assigned g d) {build : HostPipeline} (hwanted : g.wanted T rts d = some build) :
    assigned.Describes T build := by
  simp only [wanted, Option.bind_eq_bind, Option.pure_def] at hwanted
  obtain ⟨⟨vs,ps⟩,hpair,hwanted⟩ := Option.bind_eq_some_iff.mp hwanted
  obtain ⟨draw,hdraw,hwanted⟩ := Option.bind_eq_some_iff.mp hwanted
  obtain ⟨r,hr,hwanted⟩ := Option.bind_eq_some_iff.mp hwanted
  cases hwanted
  refine ⟨(vs,ps),?_,hostPipeline_eq_ofKey hr d.bound draw⟩
  rw [h.pair hkept, h.assigned draw hdraw] at hpair
  exact hpair

lemma Kept.draw (h : g.Kept T assigned) {rts : List RegisteredRt} {d : DrawInputs}
    (hok : Settled T assigned g d) : (g.draw T rts d).Kept T assigned := by
  have hprovide := h.provide (coherent_resolvePair h.coherent d.bound)
  simp only [Renderer.draw]
  split
  next build hwanted => exact hprovide.bind (hok.describes h hwanted)
  next => exact hprovide

/-- Where no code is written over between the draws of a pipeline, every draw binds what it
wanted. -/
theorem settled_bindsWanted (h : Run T (Settled T assigned) g) : g.BindsWanted := by
  have hkept : g.Kept T assigned := by
    induction h with
    | boot bytes readable => exact .boot bytes readable
    | write addr data _ _ ih => exact ih.provide (ih.coherent.write addr data)
    | drain _ ih => exact ih.provide ih.coherent.drain
    | draw rts d _ hok ih => exact ih.draw hok
  exact hkept.bindsWanted

/-- A pixel shader at 0x1000 that moves 0 to v0. -/
def oneShader : Renderer :=
  boot (fun a => (moveBinary 0 0x80).getD (a-0x1000) 0) fun addr size =>
    0x1000 ≤ addr && addr+size ≤ 0x1024

lemma run_oneShader (ok : Renderer → DrawInputs → Prop) : Run moveTools ok oneShader := .boot _ _

/-- A draw of the shader at 0x1000 under the built-in vertex shader. -/
def quadDraw : DrawInputs :=
  { Exec.probe 0 with
    bound := ⟨some (.embedded .vertex 0),some (.gcnBinary ⟨0x1000,none,[]⟩)⟩ }

lemma BindsWanted.psSpirv_created {g : Renderer} (h : g.BindsWanted) {x : List UInt32}
    (hx : x ∈ g.bound.map (·.2.psSpirv)) : x ∈ g.created.map (·.2.psSpirv) := by
  obtain ⟨b,hb,hspirv⟩ := List.mem_map.mp hx
  exact List.mem_map.mpr ⟨b,(h b hb).1,hspirv⟩

/-- The shader is rewritten to move 1.0 and drained between two draws of it: the second binds
the pipeline of the code that is gone. -/
theorem not_bindsWanted_rewritten :
    ∃ T g, Run T (fun _ _ => True) g ∧ g.provider.log = [] ∧ ¬g.BindsWanted := by
  have hredrawn := (((run_oneShader fun _ _ => True).draw [] quadDraw trivial).write 0x1000 [0xf2]
    (by decide)).drain.draw [] quadDraw trivial
  refine ⟨moveTools,_,hredrawn,by decide +kernel,fun h => ?_⟩
  have hcreated := h.psSpirv_created (x := [0x07230203,0x3f800000]) (by decide +kernel)
  exact absurd hcreated (by decide +kernel)

/-- The shader, drawn once. -/
def drawnOnce : Renderer :=
  let ps : HostShader := ⟨[0x07230203,0],some (movesIo [0] .pixel)⟩
  let build := hostPipeline quadDraw.bound ⟨[0x07230203],none⟩ ps screenState ⟨none,none,[],none⟩
  { provider := { oneShader.provider with
      cache := [(⟨1,2,3,8,[]⟩,⟨⟨ps,.pixel⟩,0x1000,0x1008,none⟩)]
      watched := [(0x1000,8)] }
    pipelines := [(build.key,1)]
    nextPipeline := 2
    created := [(1,build)]
    bound := [(1,build)] }

lemma draw_oneShader : oneShader.draw moveTools [] quadDraw = drawnOnce := rfl

/-- The shader, drawn once, with something written elsewhere and drained. -/
def writtenElsewhere : Renderer :=
  { drawnOnce with provider := (drawnOnce.provider.write 0x2000 [1]).drain }

lemma quadDraw_binary {stage : ShaderStage} {r : GcnRef}
    (h : quadDraw.bound.get stage = some (.gcnBinary r)) : r = ⟨0x1000,none,[]⟩ := by
  cases stage <;> cases h
  rfl

lemma parse_writtenElsewhere : parseSb writtenElsewhere.provider.read 0x1000 =
    .ok ⟨.pixel,0x1000,0x1008,.pixel,8,1,2,3⟩ := rfl

def oneText : ShaderText := ⟨⟨1,2,3,8,[]⟩,.pixel,some [0x7e000280,0xbf810000],none⟩

lemma text_oneShader :
    moveTools.binaryText oneShader.provider.read ⟨0x1000,none,[]⟩ = some oneText := by decide +kernel

lemma text_writtenElsewhere :
    moveTools.binaryText writtenElsewhere.provider.read ⟨0x1000,none,[]⟩ = some oneText := by
  decide +kernel

lemma texts_quadDraw {read : Reader}
    (h : moveTools.binaryText read ⟨0x1000,none,[]⟩ = some oneText) :
    moveTools.texts read quadDraw.bound = fun stage => match stage with
      | .vertex => some (.embedded .vertex 0)
      | .pixel => some (.binary (some oneText)) := by
  funext stage
  cases stage with
  | vertex => rfl
  | pixel => exact congrArg (fun text => some (BoundText.binary text)) h

/-- Two draws of a shader share its pipeline, whatever is written elsewhere in between. -/
theorem settled_bindsWanted_twice : ∃ g, g.bound.map (·.1) = [1,1] ∧ BindsWanted g := by
  let assigned : Assignment := fun _ _ _ => moveTools.texts oneShader.provider.read quadDraw.bound
  have hfirst : Settled moveTools assigned oneShader quadDraw := by
    refine ⟨fun _ _ _ _ _ _ hlookup => ?_,fun _ _ _ _ _ _ hlookup => ?_,fun _ _ => rfl⟩
    · cases hlookup
    · cases hlookup
  have hsecond : Settled moveTools assigned writtenElsewhere quadDraw := by
    refine ⟨fun stage r hr sb entry hparse hlookup => ?_,fun stage r hr sb entry hparse hlookup => ?_,
      fun draw hdraw => ?_⟩
    · rfl
    · obtain rfl := quadDraw_binary hr
      rw [parse_writtenElsewhere] at hparse
      cases hparse
      cases hlookup
      exact ⟨rfl,rfl,fun _ _ _ => rfl⟩
    · exact (texts_quadDraw text_writtenElsewhere).trans (texts_quadDraw text_oneShader).symm
  have h₁ := (run_oneShader _).draw [] quadDraw hfirst
  rw [draw_oneShader] at h₁
  have h₂ := (h₁.write 0x2000 [1] (by decide)).drain.draw [] quadDraw hsecond
  exact ⟨_,by decide +kernel,settled_bindsWanted h₂⟩

end Renderer

end Unemups4.Gnm
