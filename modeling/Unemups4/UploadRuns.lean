import Unemups4.UploadOrder

/-! What a packet looks up, and when a lookup may fill again what a draw before it reads. -/
namespace Unemups4.Gnm
open Gcn

/-- Commands about other ids, and frees, upload nothing. -/
lemma lastUpload_eq_none {id : ℕ} {cmds : List ResourceCmd}
    (h : ∀ cmd ∈ cmds, cmd.event.id = id → cmd = .freeResource id) : lastUpload id cmds = none := by
  induction cmds with
  | nil => rfl
  | cons cmd cmds ih =>
    have hrest : lastUpload id cmds = none := ih fun c hc => h c (List.mem_cons_of_mem _ hc)
    rw [lastUpload, hrest]
    cases hup : cmd.uploads id with
    | none => rfl
    | some data =>
      have hid : cmd.event.id = id := by
        cases cmd <;> simp_all [ResourceCmd.uploads, ResourceCmd.event, Lifetime.Event.id]
      simp [h cmd (by simp) hid, ResourceCmd.uploads] at hup

lemma Display.held_applyAll {d : Display} {id : ℕ} (cmds : List ResourceCmd) (h : (d.held id).isSome) :
    ((d.applyAll cmds).held id).isSome := by
  induction cmds generalizing d with
  | nil => exact h
  | cons cmd cmds ih => exact ih (d.held_apply cmd h)

/-- An entry that was there before, for the same resource and no cleaner. -/
def ResourceCache.Had (c : ResourceCache) (p : ResourceKey × Entry) : Prop :=
  ∃ q ∈ c.entries, q.1 = p.1 ∧ q.2.id = p.2.id ∧ q.2.imported = p.2.imported ∧
    (p.2.dirty → q.2.dirty)

namespace ResourceCache.Had

variable {c : ResourceCache} {p : ResourceKey × Entry}

lemma of_mem (h : p ∈ c.entries) : c.Had p := ⟨p,h,rfl,rfl,rfl,id⟩

lemma trans {c' : ResourceCache} (h : ∀ q ∈ c'.entries, q.2.id = p.2.id → c.Had q) (h' : c'.Had p) :
    c.Had p := by
  obtain ⟨q,hq,hkey,hid,himp,hdirty⟩ := h'
  obtain ⟨x,hx,hkey',hid',himp',hdirty'⟩ := h q hq hid
  exact ⟨x,hx,hkey'.trans hkey,hid'.trans hid,himp'.trans himp,hdirty' ∘ hdirty⟩

lemma of_modify {key : ResourceKey} {f : Entry → Entry} (hid : ∀ e, (f e).id = e.id)
    (himp : ∀ e, (f e).imported = e.imported) (hdirty : ∀ e, (f e).dirty → e.dirty)
    (h : p ∈ (c.modify key f).entries) : c.Had p := by
  obtain ⟨q,hq,rfl⟩ := List.mem_map.mp h
  refine ⟨q,hq,?_⟩
  split_ifs
  · exact ⟨rfl,(hid q.2).symm,(himp q.2).symm,hdirty q.2⟩
  · exact ⟨rfl,rfl,rfl,id⟩

end ResourceCache.Had

namespace DrawInputs

variable (d : DrawInputs)

/-- Fewer ranges than the shader fetches streams. -/
def starves (vs : HostShader) : Bool := (d.vertexRanges vs).length < vs.buffers.length

/-- The ranges that are bound for the vertex shader. -/
def streams (vs : HostShader) : List BufferRange :=
  if vs.buffers = [] then d.vertexRanges vs
  else if d.starves vs then [] else (vs.buffers.zip (d.vertexRanges vs)).map (·.2)

end DrawInputs

/-- The index buffer that a draw reads. -/
def DrawShape.indexKey (t : IndexType) : DrawShape → Option ResourceKey
  | .auto _ => none
  | .indexed base count =>
      if base = 0 ∨ saturatingMul t.elemSize count = 0 then none
      else some ⟨base,saturatingMul t.elemSize count,.indexBuf⟩

/-- A key and how it is looked up. -/
abbrev Lookup := ResourceKey × ResourceCache.Recipe

namespace Exec

variable (T : Toolchain) (e : Exec)

def bufferLookup (key : ResourceKey) : Lookup :=
  (key,ResourceCache.bufferRecipe copyPolicy e.read key)

/-- A texture that is read; a render target and the white dummy are not. -/
def textureLookup : TextureSource → Option Lookup
  | .renderTarget _ _ => none
  | .plain t =>
      let key : ResourceKey := ⟨t.base,t.byteSpan,.texture ⟨t.dfmt,t.nfmt⟩ (textureSurface t)⟩
      if (e.read t.base (min t.byteSpan 16)).isNone then none
      else some (key,ResourceCache.textureRecipe T.detile e.read key (textureSurface t) (textureFormat t))

/-- What the setup of a draw looks up, once its checks have passed. -/
def setupLookups (d : DrawInputs) (vs : HostShader) (r : Resolved) : List Lookup :=
  r.textures.filterMap (fun t => e.textureLookup T t.2) ++
    (r.vsConst.toList ++ r.psConst.toList).map (fun c => e.bufferLookup ⟨c.2.addr,c.2.size,.constBuf⟩) ++
    (d.streams vs).map fun range => e.bufferLookup ⟨range.addr,range.size,.vertexBuf⟩

/-- What a packet looks up. -/
def lookups (p : Packet) : List Lookup :=
  ((do
    let (d,shape) ← p.draw e.index
    let (vs,ps) ← (e.resolveShaders T d.bound).1
    let _ ← d.drawState
    let r ← d.resolve e.renderTargets vs ps
    let index := if vs.buffers ≠ [] ∧ d.starves vs then none else shape.indexKey e.index.indexType
    return e.setupLookups T d vs r ++ index.toList.map e.bufferLookup) : Option (List Lookup)).getD []

/-- One of the draws reads the resource. -/
def ReadBy (passes : List RecordedPass) (id : ℕ) : Prop := ∃ pass ∈ passes, id ∈ pass.reads

/-- What the lookup would fill again, none of the draws reads, unless it shows those bytes. -/
def KeepsRead (d : Display) (passes : List RecordedPass) (q : Lookup) : Prop :=
  ∀ x ∈ e.cache.entries, x.1 = q.1 → ¬q.2.clean x.2 → ReadBy passes x.2.id →
    ∀ data ∈ (q.2.upload x.2.id).bind (ResourceCmd.uploads x.2.id),
      (replayCommandList d e.cmds).display.shows x.2.id = some data

/-- So it is for every lookup of every packet of a walk and the draws before it. -/
def WalkKeeps (d : Display) (e : Exec) : List Packet → Prop
  | [] => True
  | p :: ps => (∀ q ∈ e.lookups T p, e.KeepsRead d (replayCommandList d e.cmds).passes q) ∧
      ∀ e' ∈ e.handle T p, WalkKeeps d e' ps

instance (passes : List RecordedPass) (id : ℕ) : Decidable (ReadBy passes id) :=
  inferInstanceAs (Decidable (∃ pass ∈ passes, id ∈ pass.reads))

instance (d : Display) (passes : List RecordedPass) (q : Lookup) : Decidable (e.KeepsRead d passes q) :=
  inferInstanceAs (Decidable (∀ x ∈ e.cache.entries, x.1 = q.1 → ¬q.2.clean x.2 →
    ReadBy passes x.2.id → ∀ data ∈ (q.2.upload x.2.id).bind (ResourceCmd.uploads x.2.id),
      (replayCommandList d e.cmds).display.shows x.2.id = some data))

instance decidableWalkKeeps (d : Display) : ∀ (e : Exec) (ps : List Packet), Decidable (e.WalkKeeps T d ps)
  | _, [] => inferInstanceAs (Decidable True)
  | e, p :: ps =>
      have := fun e' => decidableWalkKeeps d e' ps
      inferInstanceAs (Decidable ((∀ q ∈ e.lookups T p,
        e.KeepsRead d (replayCommandList d e.cmds).passes q) ∧ ∀ e' ∈ e.handle T p, WalkKeeps T d e' ps))

/-- From `e` on there was no draw, the guest memory is the same, and what the draws read is left
alone: its contents, and the entries of the cache that stand for it. -/
structure Calm (d : Display) (passes : List RecordedPass) (e e' : Exec) : Prop where
  bytes : e'.bytes = e.bytes
  readable : e'.readable = e.readable
  mute : ∃ new, e'.cmds = e.cmds ++ new ∧ ∀ cmd ∈ new, Replay.isDraw cmd = false
  held : ∀ id, ReadBy passes id → ((d.applyAll (resourceCmds e'.cmds)).held id).isSome
  shows : ∀ id, ReadBy passes id →
    (d.applyAll (resourceCmds e'.cmds)).shows id = (d.applyAll (resourceCmds e.cmds)).shows id
  entries : ∀ p ∈ e'.cache.entries, ReadBy passes p.2.id → e.cache.Had p

variable {T e} {d : Display} {e' : Exec} {passes : List RecordedPass}

lemma Calm.read (h : e.Calm d passes e') : e'.read = e.read := by
  funext addr size
  rw [Exec.read, Exec.read, h.bytes, h.readable]

lemma Calm.emit (h : e.Calm d passes e') {cmd : BackendCmd} (hcmd : ∀ c, cmd ≠ .resource c)
    (hdraw : Replay.isDraw cmd = false) : e.Calm d passes (e'.emit cmd) := by
  obtain ⟨new,hnew,hmute⟩ := h.mute
  have hres : resourceCmds (e'.emit cmd).cmds = resourceCmds e'.cmds := by
    rw [Exec.emit, resourceCmds_append]
    cases cmd with
    | resource c => exact absurd rfl (hcmd c)
    | _ => simp [resourceCmds]
  refine ⟨h.bytes,h.readable,⟨new ++ [cmd],by simp [Exec.emit, hnew],?_⟩,?_,?_,h.entries⟩
  · intro c hc
    rcases List.mem_append.mp hc with hc | hc
    · exact hmute c hc
    · rwa [List.mem_singleton.mp hc]
  · rw [hres]
    exact h.held
  · rw [hres]
    exact h.shows

/-- An operation of the cache that uploads to what is read only what that shows. -/
lemma Calm.take (h : e.Calm d passes e') {r : ℕ × ResourceCache × List ResourceCmd}
    (hwhole : (d.applyAll (resourceCmds e'.cmds)).Whole r.2.2)
    (hup : ∀ id, ReadBy passes id → ∀ data, lastUpload id r.2.2 = some data →
      (d.applyAll (resourceCmds e.cmds)).shows id = some data)
    (hentries : ∀ p ∈ r.2.1.entries, ReadBy passes p.2.id → e'.cache.Had p) : e.Calm d passes (e'.take r).2 := by
  obtain ⟨new,hnew,hmute⟩ := h.mute
  have hres : resourceCmds (e'.take r).2.cmds = resourceCmds e'.cmds ++ r.2.2 := by
    simp [Exec.take, resourceCmds_append, resourceCmds_resource]
  refine ⟨h.bytes,h.readable,⟨new ++ r.2.2.map .resource,by simp [Exec.take, hnew],?_⟩,?_,?_,?_⟩
  · intro cmd hcmd
    rcases List.mem_append.mp hcmd with hcmd | hcmd
    · exact hmute cmd hcmd
    · obtain ⟨c,-,rfl⟩ := List.mem_map.mp hcmd
      rfl
  · intro id hid
    rw [hres, d.applyAll_append]
    exact Display.held_applyAll _ (h.held id hid)
  · intro id hid
    rw [hres, d.applyAll_append, Display.shows_applyAll hwhole (h.held id hid)]
    cases hlast : lastUpload id r.2.2 with
    | none => simpa using h.shows id hid
    | some data => simpa using (hup id hid data hlast).symm
  · intro p hp hid
    exact .trans (fun q hq heq => h.entries q hq (heq ▸ hid)) (hentries p hp hid)

/-- What the display does not hold is not read. -/
lemma Calm.readBy_ne_nextId (h : e.Calm d passes e') (hsync : e'.InSync d) {id : ℕ} (hid : ReadBy passes id) :
    id ≠ e'.cache.nextId := by
  rintro rfl
  simpa [hsync.synced.held_nextId] using h.held _ hid

/-- Commands about the id that is minted next. -/
lemma Calm.lastUpload_fresh (h : e.Calm d passes e') (hsync : e'.InSync d) {cmds : List ResourceCmd}
    (hcmds : ∀ cmd ∈ cmds, cmd.event.id = e'.cache.nextId) {id : ℕ} (hid : ReadBy passes id) :
    lastUpload id cmds = none := by
  refine lastUpload_eq_none fun cmd hcmd heq => ?_
  exact absurd (heq.symm.trans (hcmds cmd hcmd)) (h.readBy_ne_nextId hsync hid)

lemma Calm.trim (h : e.Calm d passes e') (hsync : e'.InSync d) (id now : ℕ) :
    e.Calm d passes (e'.take (id,e'.cache.trim now)).2 := by
  obtain ⟨hsub,hfree⟩ := trim_frees e'.cache now
  refine h.take (hsync.synced.trim now).1 (fun x _ data hlast => ?_) fun p hp _ => .of_mem (hsub p hp)
  rw [lastUpload_eq_none] at hlast
  · cases hlast
  · rintro cmd hcmd rfl
    obtain ⟨y,rfl⟩ := hfree cmd hcmd
    rfl

/-- A recipe for which an entry that is no cleaner stays in need of an upload. -/
def Steady (r : ResourceCache.Recipe) : Prop :=
  ∀ x y : Entry, y.imported = x.imported → (x.dirty → y.dirty) → ¬r.clean x → ¬r.clean y

lemma steady_bufferRecipe (pol : CachePolicy) (read : ℕ → ℕ → Option Bytes) (key : ResourceKey) :
    Steady (ResourceCache.bufferRecipe pol read key) := by
  intro x y himp hdirty hclean
  simp only [ResourceCache.bufferRecipe, himp] at hclean ⊢
  cases hx : x.dirty <;> simp_all

lemma steady_textureRecipe (detile : Bytes → SurfaceLayout → Option Bytes)
    (read : ℕ → ℕ → Option Bytes) (key : ResourceKey) (surface : SurfaceLayout) (format : TextureFormat) :
    Steady (ResourceCache.textureRecipe detile read key surface format) := by
  intro x y _ hdirty hclean
  simp_all [ResourceCache.textureRecipe]

section Reads

variable {q : Lookup} {a : ResourceCache.Acquired} {c' : ResourceCache} {cmds : List ResourceCmd}

/-- The one upload to a resource that was there is spared by the condition. -/
lemma Calm.reads_upload (h : e.Calm d passes e') (hsync : e'.InSync d) (hr : q.2.Lawful) (hsteady : Steady q.2)
    (hkeeps : e.KeepsRead d passes q) (hreads : ResourceCache.Reads e'.cache q.1 q.2 a c' cmds) {id : ℕ}
    (hid : ReadBy passes id) {data : Bytes} (hlast : lastUpload id cmds = some data) :
    (d.applyAll (resourceCmds e.cmds)).shows id = some data := by
  cases hreads with
  | clean | unreadable => cases hlast
  | @reupload entry cmd hlook hclean hup =>
    have hcmd : cmd.uploads id = some data := by simpa [lastUpload] using hlast
    obtain rfl : id = entry.id := by
      have huse := hr.upload _ _ hup
      cases cmd <;> simp_all [ResourceCmd.uploads, ResourceCmd.event]
    obtain ⟨x,hx,hkey,hxid,himp,hdirty⟩ := h.entries _ (ResourceCache.lookup_mem hlook) hid
    have hshows := hkeeps x hx hkey (hsteady _ _ himp hdirty hclean)
    rw [hxid, hup] at hshows
    rw [← hshows hid data hcmd]
    exact ((Replay.start d).shows_run e.cmds _).symm
  | filled hlook himp hup =>
    rw [h.lastUpload_fresh hsync _ hid] at hlast
    · cases hlast
    · simp [hr.create, hr.upload _ _ hup, Lifetime.Event.id]
  | imported | unfilled =>
    rw [h.lastUpload_fresh hsync _ hid] at hlast
    · cases hlast
    · simp [hr.create, Lifetime.Event.id]

/-- What is recorded for a first use is not read yet. -/
lemma Calm.reads_had (h : e.Calm d passes e') (hsync : e'.InSync d)
    (hreads : ResourceCache.Reads e'.cache q.1 q.2 a c' cmds) {p : ResourceKey × Entry}
    (hp : p ∈ (c'.acquireFinish q.1 q.2 a).1.entries) (hid : ReadBy passes p.2.id) : e'.cache.Had p := by
  have htouch : ∀ {p}, p ∈ (e'.cache.touch q.1).entries → e'.cache.Had p := fun hp =>
    .of_modify (f := fun x => { x with lastUsed := e'.cache.trimmedFlip }) (fun _ => rfl) (fun _ => rfl)
      (fun _ hdirty => hdirty) hp
  have hfirst : ∀ {x : Entry}, x.id = e'.cache.nextId → p ∈ (q.1,x) :: e'.cache.entries →
      e'.cache.Had p := by
    intro x hx hp
    rcases List.mem_cons.mp hp with rfl | hp
    · exact absurd hx (h.readBy_ne_nextId hsync hid)
    · exact .of_mem hp
  cases hreads with
  | clean | unreadable => exact htouch hp
  | reupload =>
    exact .trans (fun _ hx _ => htouch hx)
      (.of_modify (f := fun x => { x with dirty := false }) (fun _ => rfl) (fun _ => rfl)
        (fun _ hdirty => by simp at hdirty) hp)
  | imported | filled | unfilled => exact hfirst rfl hp

lemma Calm.acquire (detile : Bytes → SurfaceLayout → Option Bytes) (h : e.Calm d passes e')
    (hsync : e'.InSync d) (hr : ∀ c d, (Synced.reader c d e'.bytes e'.readable).Serves detile q.1 q.2)
    (hsteady : Steady q.2) (hkeeps : e.KeepsRead d passes q) {now id : ℕ} {ws : List WatchOp} (hget : e'.cache.acquire now q.1 q.2 = some (id,c',cmds,ws)) :
    e.Calm d passes (e'.take (id,c',cmds)).2 := by
  unfold ResourceCache.acquire at hget
  cases hread : e'.cache.acquireRead now q.1 q.2 with
  | none => simp [hread] at hget
  | some t =>
    obtain ⟨a,c₁,out⟩ := t
    simp only [hread, Option.some.injEq] at hget
    obtain ⟨cmds',hreads,rfl⟩ := ResourceCache.acquireRead_reads hread
    cases hget
    obtain ⟨hwhole,htrim⟩ := hsync.synced.trim now
    have htrimmed := h.trim hsync a.id now
    have hsync' : (e'.take (a.id,e'.cache.trim now)).2.InSync d := hsync.take hwhole htrim
    have htaken := htrimmed.take (r := (a.id,(c₁.acquireFinish q.1 q.2 a).1,cmds'))
      (by
        have heq : resourceCmds (e'.take (a.id,e'.cache.trim now)).2.cmds =
            resourceCmds e'.cmds ++ (e'.cache.trim now).2 := by
          simp [Exec.take, resourceCmds_append, resourceCmds_resource]
        rw [heq, d.applyAll_append]
        exact htrim.reads_whole (hr _ _) hreads)
      (fun x hx data hlast =>
        htrimmed.reads_upload hsync' (hr e'.cache d).lawful hsteady hkeeps hreads hx hlast)
      fun p hp hx => htrimmed.reads_had hsync' hreads hp hx
    simpa [Exec.take] using htaken

end Reads

section Binds

variable {e₂ : Exec} {now id : ℕ}

lemma Calm.fetch (h : e.Calm d passes e') (hsync : e'.InSync d) {key : ResourceKey}
    (hlinear : isLinearBuffer key.layout) (hkeeps : e.KeepsRead d passes (e.bufferLookup key))
    (hget : e'.fetch now key = some (id,e₂)) : e.Calm d passes e₂ := by
  obtain ⟨⟨x,c,cmds,ws⟩,hacq,heq⟩ := Option.map_eq_some_iff.mp hget
  have hcalm := h.acquire (fun bytes _ => some bytes) hsync (q := e'.bufferLookup key)
    (fun _ _ => Machine.bufferRecipe_serves copyPolicy hlinear) (steady_bufferRecipe _ _ _)
    (by rwa [bufferLookup, h.read]) hacq
  cases heq
  exact hcalm

/-- The entries stay, and an upload of a new id is not read yet. -/
lemma Calm.beside (h : e.Calm d passes e') (hsync : e'.InSync d) (x : ℕ) {c : ResourceCache}
    {cmds : List ResourceCmd} (hwhole : (d.applyAll (resourceCmds e'.cmds)).Whole cmds)
    (hbeside : e'.cache.Beside cmds c) : e.Calm d passes (e'.take (x,c,cmds)).2 := by
  obtain ⟨-,hentries,hnew⟩ := hbeside
  refine h.take hwhole (fun y hy data hlast => ?_) fun _ hp _ => .of_mem (hentries ▸ hp)
  rw [h.lastUpload_fresh hsync hnew hy] at hlast
  cases hlast

lemma Calm.fetchSampler (h : e.Calm d passes e') (hsync : e'.InSync d) {desc : SamplerDesc}
    (hget : e'.fetchSampler desc = some (id,e₂)) : e.Calm d passes e₂ := by
  obtain ⟨⟨x,c,cmds⟩,hs,heq⟩ := Option.map_eq_some_iff.mp hget
  obtain ⟨hwhole,-⟩ := hsync.synced.getSampler hs
  have hcalm := h.beside hsync x hwhole (ResourceCache.getSampler_beside hs)
  cases heq
  exact hcalm

lemma Calm.fetchWhiteDummy (h : e.Calm d passes e') (hsync : e'.InSync d)
    (hget : e'.fetchWhiteDummy = some (id,e₂)) : e.Calm d passes e₂ := by
  obtain ⟨⟨x,c,cmds⟩,hw,heq⟩ := Option.map_eq_some_iff.mp hget
  obtain ⟨hwhole,-⟩ := hsync.synced.getWhiteDummy hw
  have hcalm := h.beside hsync x hwhole (ResourceCache.getWhiteDummy_beside hw)
  cases heq
  exact hcalm

lemma Calm.fetchRenderTarget (h : e.Calm d passes e') (hsync : e'.InSync d) {base size : ℕ}
    {target : TargetDesc} (hget : e'.fetchRenderTarget base size target = some (id,e₂)) :
    e.Calm d passes e₂ := by
  obtain ⟨⟨x,c,cmds⟩,hrt,heq⟩ := Option.map_eq_some_iff.mp hget
  obtain ⟨hwhole,-⟩ := hsync.synced.getRenderTarget hrt
  have hcalm : e.Calm d passes (e'.take (x,c,cmds)).2 := by
    obtain ⟨_,-,rfl,rfl,rfl⟩ | ⟨-,rfl,rfl,rfl⟩ := ResourceCache.getRenderTarget_eq_some hrt
    · exact h.take hwhole (fun _ _ _ hlast => by cases hlast) fun _ hp _ =>
        .of_modify (f := fun x => { x with lastUsed := e'.cache.trimmedFlip }) (fun _ => rfl)
          (fun _ => rfl) (fun _ hdirty => hdirty) hp
    · refine h.take hwhole (fun y hy data hlast => ?_) fun p hp hy => ?_
      · rw [h.lastUpload_fresh hsync (by simp [ResourceCmd.event, Lifetime.Event.id]) hy] at hlast
        cases hlast
      · rcases List.mem_cons.mp hp with rfl | hp
        · exact absurd rfl (h.readBy_ne_nextId hsync hy)
        · exact .of_mem hp
  cases heq
  exact hcalm

lemma Calm.registerRenderTarget (h : e.Calm d passes e') (hsync : e'.InSync d) {target : TargetDesc}
    (hreg : e'.registerRenderTarget target = some e₂) : e.Calm d passes e₂ := by
  unfold Exec.registerRenderTarget at hreg
  split at hreg
  · cases hreg
    exact h
  · obtain ⟨⟨id,e₁⟩,hget,rfl⟩ := Option.map_eq_some_iff.mp hreg
    exact (h.fetchRenderTarget hsync hget).emit (by simp) rfl

lemma Calm.bindPipeline (h : e.Calm d passes e') (p : HostPipeline) : e.Calm d passes (e'.bindPipeline p) := by
  unfold Exec.bindPipeline
  split
  · exact h.emit (by simp) rfl
  · have hcreate : e.Calm d passes (e'.emit (.createPipeline e'.nextPipeline p)) :=
      h.emit (by simp) rfl
    have hminted : e.Calm d passes { e'.emit (.createPipeline e'.nextPipeline p) with
        pipelines := (p.key,e'.nextPipeline) :: e'.pipelines, nextPipeline := e'.nextPipeline+1 } :=
      ⟨hcreate.bytes,hcreate.readable,hcreate.mute,hcreate.held,hcreate.shows,hcreate.entries⟩
    exact hminted.emit (by simp) rfl

lemma Calm.fetchImage (h : e.Calm d passes e') (hsync : e'.InSync d) {src : TextureSource}
    (hkeeps : ∀ q, e.textureLookup T src = some q → e.KeepsRead d passes q)
    (hget : e'.fetchImage T now src = some (id,e₂)) : e.Calm d passes e₂ := by
  cases src with
  | renderTarget rt t => exact h.fetchRenderTarget hsync hget
  | plain t =>
    simp only [Exec.fetchImage] at hget
    split_ifs at hget with hread
    · exact h.fetchWhiteDummy hsync hget
    · obtain ⟨⟨x,c,cmds,ws⟩,hacq,heq⟩ := Option.map_eq_some_iff.mp hget
      rw [h.read] at hread
      have hcalm := h.acquire T.detile hsync (q := (_,ResourceCache.textureRecipe T.detile e'.read _
        (textureSurface t) (textureFormat t)))
        (fun _ _ => Machine.textureRecipe_serves rfl _) (steady_textureRecipe _ _ _ _ _)
        (hkeeps _ (by rw [textureLookup, if_neg hread, h.read])) hacq
      cases heq
      exact hcalm

lemma Calm.bindTexture (h : e.Calm d passes e') (hsync : e'.InSync d) {b : SamplerBinding × TextureSource}
    (hkeeps : ∀ q, e.textureLookup T b.2 = some q → e.KeepsRead d passes q)
    (hbind : e'.bindTexture T now b = some e₂) : e.Calm d passes e₂ := by
  obtain ⟨⟨imageId,e₁⟩,himage,hbind⟩ := Option.bind_eq_some_iff.mp hbind
  obtain ⟨⟨samplerId,e₂⟩,hsampler,rfl⟩ := Option.map_eq_some_iff.mp hbind
  have hcalm := h.fetchImage hsync hkeeps himage
  exact (hcalm.fetchSampler (hsync.fetchImage himage).1 hsampler).emit (by simp) rfl

lemma Calm.bindConst (h : e.Calm d passes e') (hsync : e'.InSync d) {c : ConstBufferBinding × BufferRange}
    (hkeeps : e.KeepsRead d passes (e.bufferLookup ⟨c.2.addr,c.2.size,.constBuf⟩))
    (hbind : e'.bindConst now c = some e₂) : e.Calm d passes e₂ := by
  obtain ⟨⟨id,e₁⟩,hget,rfl⟩ := Option.map_eq_some_iff.mp hbind
  exact (h.fetch hsync rfl hkeeps hget).emit (by simp) rfl

lemma Calm.bindStorage (h : e.Calm d passes e') (hsync : e'.InSync d) {b : ℕ × BufferBinding × BufferRange}
    (hkeeps : e.KeepsRead d passes (e.bufferLookup ⟨b.2.2.addr,b.2.2.size,.vertexBuf⟩))
    (hbind : e'.bindStorage now b = some e₂) : e.Calm d passes e₂ := by
  obtain ⟨⟨id,e₁⟩,hget,rfl⟩ := Option.map_eq_some_iff.mp hbind
  exact (h.fetch hsync rfl hkeeps hget).emit (by simp) rfl

lemma Calm.bindVertex (h : e.Calm d passes e') (hsync : e'.InSync d) {b : ℕ × BufferRange}
    (hkeeps : e.KeepsRead d passes (e.bufferLookup ⟨b.2.addr,b.2.size,.vertexBuf⟩))
    (hbind : e'.bindVertex now b = some e₂) : e.Calm d passes e₂ := by
  obtain ⟨⟨id,e₁⟩,hget,rfl⟩ := Option.map_eq_some_iff.mp hbind
  exact (h.fetch hsync rfl hkeeps hget).emit (by simp) rfl

/-- One bind after another, each of which keeps the calm. -/
lemma Calm.bindAll {α : Type} {bind : Exec → α → Option Exec} {as : List α} (h : e.Calm d passes e')
    (hsync : e'.InSync d) (hone : ∀ a ∈ as, ∀ {e₁ e₂ : Exec}, e.Calm d passes e₁ → e₁.InSync d →
      bind e₁ a = some e₂ → e.Calm d passes e₂ ∧ e₂.InSync d) (hall : Exec.bindAll bind e' as = some e₂) :
    e.Calm d passes e₂ ∧ e₂.InSync d :=
  bindAll_induct (P := fun x => e.Calm d passes x ∧ x.InSync d)
    (fun _ a ha _ hx hbind => hone a ha hx.1 hx.2 hbind) ⟨h,hsync⟩ hall

lemma Calm.bindBuffers (h : e.Calm d passes e') (hsync : e'.InSync d) {i : DrawInputs} {vs : HostShader}
    (hkeeps : ∀ range ∈ i.streams vs,
      e.KeepsRead d passes (e.bufferLookup ⟨range.addr,range.size,.vertexBuf⟩)) {bound : Bool}
    (hbind : e'.bindBuffers i vs = some (e₂,bound)) :
    e.Calm d passes e₂ ∧ (bound → ¬(vs.buffers ≠ [] ∧ i.starves vs)) := by
  unfold Exec.bindBuffers at hbind
  unfold DrawInputs.streams at hkeeps
  split_ifs at hbind with hsome hstarves
  · cases hbind
    exact ⟨h,by simp⟩
  · obtain ⟨e₁,hall,heq⟩ := Option.map_eq_some_iff.mp hbind
    cases heq
    have hfed : i.starves vs = false := by simpa [DrawInputs.starves] using hstarves
    rw [if_neg hsome, hfed] at hkeeps
    refine ⟨(h.bindAll hsync (fun a ha _ _ hx hs hb => ?_) hall).1,by simp [hfed]⟩
    refine ⟨hx.bindStorage hs (hkeeps _ ?_) hb,hs.bindStorage hb⟩
    obtain ⟨⟨b,n⟩,hmem,rfl⟩ := List.mem_map.mp ha
    exact List.mem_map_of_mem (List.fst_mem_of_mem_zipIdx hmem)
  · obtain ⟨e₁,hall,heq⟩ := Option.map_eq_some_iff.mp hbind
    cases heq
    rw [not_not] at hsome
    rw [if_pos hsome] at hkeeps
    refine ⟨(h.bindAll hsync (fun a ha _ _ hx hs hb => ?_) hall).1,by simp [hsome]⟩
    refine ⟨hx.bindVertex hs (hkeeps _ ?_) hb,hs.bindVertex hb⟩
    obtain ⟨⟨range,n⟩,hmem,rfl⟩ := List.mem_map.mp ha
    exact List.fst_mem_of_mem_zipIdx hmem

lemma Calm.commitTarget (h : e.Calm d passes e') (target : TargetDesc) : e.Calm d passes (e'.commitTarget target) := by
  unfold Exec.commitTarget
  split
  · exact h
  · exact ⟨h.bytes,h.readable,h.mute,h.held,h.shows,h.entries⟩

lemma Calm.bindDraw (h : e.Calm d passes e') (hsync : e'.InSync d) {i : DrawInputs} {vs ps : HostShader}
    {draw : DrawState} {r : Resolved} (hkeeps : ∀ q ∈ e.setupLookups T i vs r, e.KeepsRead d passes q)
    {ready : Bool} (hbind : e'.bindDraw T i vs ps draw r = some (e₂,ready)) :
    e.Calm d passes e₂ ∧ (ready → ¬(vs.buffers ≠ [] ∧ i.starves vs)) := by
  simp only [setupLookups, List.mem_append, List.mem_filterMap, List.mem_map] at hkeeps
  simp only [Exec.bindDraw, Option.bind_eq_bind, Option.pure_def] at hbind
  obtain ⟨e₁,htex,hbind⟩ := Option.bind_eq_some_iff.mp hbind
  obtain ⟨e₂,hconst,hbind⟩ := Option.bind_eq_some_iff.mp hbind
  obtain ⟨⟨e₃,bound⟩,hbuf,hbind⟩ := Option.bind_eq_some_iff.mp hbind
  obtain ⟨h₁,hsync₁⟩ := (h.bindPipeline _).bindAll (hsync.bindPipeline _) (fun b hb _ _ hx hs hbind =>
    ⟨hx.bindTexture hs (fun q hq => hkeeps q (.inl (.inl ⟨b,hb,hq⟩))) hbind,hs.bindTexture hbind⟩) htex
  obtain ⟨h₂,hsync₂⟩ := h₁.bindAll hsync₁ (fun c hc _ _ hx hs hbind =>
    ⟨hx.bindConst hs (hkeeps _ (.inl (.inr ⟨c,List.mem_append.mp hc,rfl⟩))) hbind,hs.bindConst hbind⟩)
    hconst
  obtain ⟨h₃,hfed⟩ := h₂.bindBuffers hsync₂ (fun range hrange =>
    hkeeps _ (.inr ⟨range,hrange,rfl⟩)) hbuf
  split_ifs at hbind with hbound
  · cases hbind
    exact ⟨((h₃.commitTarget draw.target).emit (by simp) rfl).emit (by simp) rfl,fun _ => hfed hbound⟩
  · cases hbind
    exact ⟨h₃,by simp⟩

/-- A draw that is ready reads its index buffer as it was. -/
lemma Calm.setupDraw {i : DrawInputs} {shape : DrawShape} {p : Packet} (hsync : e.InSync d)
    (hheld : ∀ id, ReadBy passes id → ((d.applyAll (resourceCmds e.cmds)).held id).isSome)
    (hp : p.draw e.index = some (i,shape)) (hkeeps : ∀ q ∈ e.lookups T p, e.KeepsRead d passes q) {ready : Bool}
    (hsetup : e.setupDraw T i = some (e',ready)) :
    e.Calm d passes e' ∧ (ready → ∀ key, shape.indexKey e.index.indexType = some key →
      e.KeepsRead d passes (e.bufferLookup key)) := by
  have hresolved : e.Calm d passes (e.resolveShaders T i.bound).2 :=
    ⟨rfl,rfl,⟨[],by simp [resolveShaders],by simp⟩,hheld,fun _ _ => rfl,fun _ hp _ => .of_mem hp⟩
  have hsync₀ : (e.resolveShaders T i.bound).2.InSync d := ⟨hsync.synced,hsync.whole⟩
  simp only [Exec.setupDraw] at hsetup
  split at hsetup
  · cases hsetup
    exact ⟨hresolved,by simp⟩
  · next vs ps hpair =>
    split at hsetup
    · cases hsetup
      exact ⟨hresolved,by simp⟩
    · next draw hdraw =>
      obtain ⟨e₁,hreg,hsetup⟩ := Option.bind_eq_some_iff.mp hsetup
      have h₁ := hresolved.registerRenderTarget hsync₀ hreg
      have hrts : e₁.renderTargets = e.renderTargets :=
        (registerRenderTarget_renderTargets hreg).trans rfl
      rw [hrts] at hsetup
      split at hsetup
      · cases hsetup
        exact ⟨h₁,by simp⟩
      · next r hr =>
        have hlookups : e.lookups T p = e.setupLookups T i vs r ++
            (if vs.buffers ≠ [] ∧ i.starves vs then none
              else shape.indexKey e.index.indexType).toList.map e.bufferLookup := by
          simp [lookups, hp, hpair, hdraw, hr]
        rw [hlookups] at hkeeps
        obtain ⟨h₂,hfed⟩ := h₁.bindDraw (hsync₀.registerRenderTarget hreg)
          (fun q hq => hkeeps q (List.mem_append_left _ hq)) hsetup
        refine ⟨h₂,fun hready key hkey => hkeeps _ (List.mem_append_right _ ?_)⟩
        rw [if_neg (hfed hready), hkey]
        simp

end Binds

/-- A draw is no command of the cache. -/
lemma resourceCmds_emit_draw {cmd : BackendCmd} (hcmd : Replay.isDraw cmd) :
    resourceCmds (e.emit cmd).cmds = resourceCmds e.cmds := by
  rw [Exec.emit, resourceCmds_append]
  cases cmd <;> simp_all [Replay.isDraw, resourceCmds]

/-- The end of a draw that is ready: the index buffer is looked up, and the draw is emitted. -/
lemma Calm.issue (h : e.Calm d passes e') (hsync : e'.InSync d) {now : ℕ} {t : IndexType}
    {shape : DrawShape} (hkeeps : ∀ key, shape.indexKey t = some key →
      e.KeepsRead d passes (e.bufferLookup key)) {e₂ : Exec} (hissue : e'.issue now t shape = some e₂) :
    e.Calm d passes e₂ ∨ ∃ e₁ cmd, e.Calm d passes e₁ ∧ e₁.InSync d ∧ Replay.isDraw cmd ∧
      e₂ = e₁.emit cmd := by
  cases shape with
  | auto count =>
    cases hissue
    exact .inr ⟨e',_,h,hsync,rfl,rfl⟩
  | indexed base count =>
    simp only [Exec.issue, Exec.drawIndexed] at hissue
    split_ifs at hissue with hvoid
    · cases hissue
      exact .inl h
    · obtain ⟨⟨id,e₁⟩,hget,rfl⟩ := Option.map_eq_some_iff.mp hissue
      exact .inr ⟨e₁,_,h.fetch hsync rfl (hkeeps _ (if_neg hvoid)) hget,(hsync.fetch rfl hget).1,rfl,rfl⟩

/-- A draw packet keeps the calm up to its draw. -/
lemma calm_handle {p : Packet} {i : DrawInputs} {shape : DrawShape} (hsync : e.InSync d)
    (hheld : ∀ id, ReadBy passes id → ((d.applyAll (resourceCmds e.cmds)).held id).isSome)
    (hp : p.draw e.index = some (i,shape)) (hkeeps : ∀ q ∈ e.lookups T p, e.KeepsRead d passes q)
    (hhandle : e.handle T p = some e') :
    e.Calm d passes e' ∨ ∃ e₁ cmd, e.Calm d passes e₁ ∧ e₁.InSync d ∧ Replay.isDraw cmd ∧
      e' = e₁.emit cmd := by
  rw [handle_draw hp] at hhandle
  obtain ⟨⟨e₁,ready⟩,hsetup,hissue⟩ := Option.bind_eq_some_iff.mp hhandle
  obtain ⟨hcalm,hindex⟩ := Calm.setupDraw hsync hheld hp hkeeps hsetup
  cases ready with
  | false =>
    cases hissue
    exact .inl hcalm
  | true => exact hcalm.issue (hsync.setupDraw hsetup) (hindex rfl) hissue

/-- Only a draw adds to the list. -/
lemma handle_cmds {p : Packet} (hp : p.draw e.index = none) (hhandle : e.handle T p = some e') :
    e'.cmds = e.cmds := by
  cases p with
  | drawIndexAuto i count => cases hp
  | drawIndex2 i body | drawIndexOffset2 i body =>
    cases body with
    | none =>
      cases hhandle
      rfl
    | some b => cases hp
  | dmaData src dst len =>
    cases hhandle
    unfold Exec.dmaData
    split_ifs
    · rfl
    · split <;> rfl
    · split <;> rfl
  | acquireMem base size =>
    simp only [Exec.handle, Option.some.injEq] at hhandle
    subst hhandle
    split_ifs <;> rfl
  | indexType t | indexBase base | indexBufferSize maxSize =>
    cases hhandle
    rfl

/-- A packet that fills nothing again with other bytes leaves what the draws read. -/
lemma shows_handle {p : Packet} (hsync : e.InSync d)
    (hheld : ∀ id, ReadBy passes id → ((d.applyAll (resourceCmds e.cmds)).held id).isSome)
    (hkeeps : ∀ q ∈ e.lookups T p, e.KeepsRead d passes q) (hhandle : e.handle T p = some e') {id : ℕ}
    (hid : ReadBy passes id) :
    ((d.applyAll (resourceCmds e'.cmds)).held id).isSome ∧
      (d.applyAll (resourceCmds e'.cmds)).shows id = (d.applyAll (resourceCmds e.cmds)).shows id := by
  cases hp : p.draw e.index with
  | none =>
    rw [handle_cmds hp hhandle]
    exact ⟨hheld id hid,rfl⟩
  | some x =>
    rcases calm_handle hsync hheld hp hkeeps hhandle with hcalm | ⟨e₁,cmd,hcalm,-,hcmd,rfl⟩
    · exact ⟨hcalm.held id hid,hcalm.shows id hid⟩
    · rw [resourceCmds_emit_draw hcmd]
      exact ⟨hcalm.held id hid,hcalm.shows id hid⟩

/-- What a recorded draw reads is held. -/
lemma held_of_readBy (d : Display) (cmds : List BackendCmd) {id : ℕ}
    (hid : ReadBy (replayCommandList d cmds).passes id) :
    ((d.applyAll (resourceCmds cmds)).held id).isSome := by
  obtain ⟨pass,hpass,hid⟩ := hid
  have hheld := Replay.passesHeld_replay d cmds pass hpass id hid
  obtain ⟨hlive,hretired⟩ := run_held (Replay.start d) cmds
  rw [Display.held] at hheld ⊢
  rwa [replayCommandList, hlive, hretired] at hheld

/-- The draws so far still read in order. -/
lemma Calm.readsInOrder (h : e.Calm d (replayCommandList d e.cmds).passes e')
    (hreads : ReadsInOrder d e.cmds) : ReadsInOrder d e'.cmds := by
  obtain ⟨new,hnew,hmute⟩ := h.mute
  rw [hnew]
  refine hreads.append hmute fun pass hpass id hid => ?_
  have hshows := h.shows id ⟨pass,hpass,hid⟩
  rw [hnew] at hshows
  exact ((Replay.start d).shows_run _ id).trans
    (hshows.trans ((Replay.start d).shows_run e.cmds id).symm)

lemma readsInOrder_handle {p : Packet} (hsync : e.InSync d) (hreads : ReadsInOrder d e.cmds)
    (hkeeps : ∀ q ∈ e.lookups T p, e.KeepsRead d (replayCommandList d e.cmds).passes q)
    (hhandle : e.handle T p = some e') : ReadsInOrder d e'.cmds := by
  cases hp : p.draw e.index with
  | none => rwa [handle_cmds hp hhandle]
  | some x =>
    rcases calm_handle hsync (fun _ => held_of_readBy d e.cmds) hp hkeeps hhandle with
      hcalm | ⟨e₁,cmd,hcalm,hsync₁,hcmd,rfl⟩
    · exact hcalm.readsInOrder hreads
    · have hdraw : ∀ c, cmd ≠ .resource c := by
        rintro c rfl
        cases hcmd
      exact (hcalm.readsInOrder hreads).draw (hsync₁.emit hdraw).whole hcmd

lemma readsInOrder_walk {packets : List Packet} (hsync : e.InSync d) (hreads : ReadsInOrder d e.cmds)
    (hkeeps : e.WalkKeeps T d packets) (hwalk : e.walk T packets = some e') :
    ReadsInOrder d e'.cmds := by
  induction packets generalizing e with
  | nil =>
    cases hwalk
    exact hreads
  | cons p ps ih =>
    obtain ⟨e₁,hp,hrest⟩ := Option.bind_eq_some_iff.mp hwalk
    exact ih (hsync.handle hp) (readsInOrder_handle hsync hreads hkeeps.1 hp) (hkeeps.2 e₁ hp) hrest

end Exec

/-- A submission reads in order if no packet of it fills again, with other bytes, what a draw
before it reads. -/
theorem submission_readsInOrder {T : Toolchain} {d : Display} {e e' : Exec} (hsession : Session T e d)
    {packets : List Packet} (hkeeps : e.WalkKeeps T d packets) (hwalk : e.walk T packets = some e') :
    ReadsInOrder d e'.cmds := by
  refine Exec.readsInOrder_walk hsession.inSync ?_ hkeeps hwalk
  rw [hsession.synced.2]
  intro pre cmd post pass hsplit
  simp at hsplit

/-- The first of the two draws reads the vertices copied in after it. -/
theorem not_readsInOrder_redraw :
    ¬∀ (T : Toolchain) (e e' : Exec) (d : Display) (packets : List Packet),
        Session T e d → e.walk T packets = some e' → ReadsInOrder d e'.cmds := by
  intro h
  obtain ⟨e',hwalk,hcmds⟩ := walk_redraw
  have hreads := h _ bootExec e' emptyDisplay _ (session_bootExec _) hwalk _ _ _ _ hcmds rfl 1
    (by decide)
  rw [hcmds] at hreads
  exact absurd hreads (by decide)

/-- Another copy in between: the second draw uploads what the first one's buffer shows. -/
theorem submission_readsInOrder_spared :
    ∃ e', bootExec.walk moveTools [.drawIndexAuto streamDraw 3,.dmaData 0x2000 0x3000 4,
        .drawIndexAuto streamDraw 3] = some e' ∧
      lastUpload 1 (resourceCmds e'.cmds) = some [0,0,0,0] ∧ ReadsInOrder emptyDisplay e'.cmds := by
  have hlast : (bootExec.walk moveTools [.drawIndexAuto streamDraw 3,.dmaData 0x2000 0x3000 4,
      .drawIndexAuto streamDraw 3]).map (fun e => lastUpload 1 (resourceCmds e.cmds)) =
        some (some [0,0,0,0]) := by decide +kernel
  obtain ⟨e',hwalk,hlast⟩ := Option.map_eq_some_iff.mp hlast
  exact ⟨e',hwalk,hlast,submission_readsInOrder (session_bootExec _) (by decide +kernel) hwalk⟩

end Unemups4.Gnm
