import Unemups4.StreamFrame

/-! A command stream in one submission and in two: the second list replayed after the first
and replayed on its own, and what either way leaves each draw to read. -/
namespace Unemups4.Gnm
open Gcn

/-- The driver and the display between two submissions of dword buffers, in any session from
boot on. -/
inductive StreamSession (E : StreamEnv) : Gpu → Display → Prop
  | boot (state : GpuState) (bytes : ℕ → UInt8) (readable : ℕ → ℕ → Bool) :
      StreamSession E ⟨state,⟨.new,[],[],1,[],.initial,bytes,readable,[]⟩⟩
        ⟨fun _ => none,fun _ => none,fun _ => none⟩
  | submit {g : Gpu} {d : Display} {r : Submitted} (dirty : List (ℕ × ℕ)) (dcb ccb : List Dword) :
      StreamSession E g d → g.submit E d dirty dcb ccb = some r → StreamSession E r.gpu r.display
  | guest {g : Gpu} {d : Display} (bytes : ℕ → UInt8) (readable : ℕ → ℕ → Bool) :
      StreamSession E g d →
      StreamSession E { g with exec := { g.exec with bytes := bytes, readable := readable } } d
  | free {g : Gpu} {d : Display} (addr size : ℕ) :
      StreamSession E g d →
      StreamSession E { g with exec := { g.exec with cache := (g.exec.cache.freeRange addr size).1 } }
        (d.applyAll (g.exec.cache.freeRange addr size).2.1).retire
  | rehash {g : Gpu} {d : Display} {entries : List (ResourceKey × Entry)} :
      StreamSession E g d → entries.Perm g.exec.cache.entries →
      StreamSession E { g with exec := { g.exec with cache.entries := entries } } d

namespace Gpu

variable {E : StreamEnv} {g g' : Gpu} {d : Display}

lemma inSync_step (h : g.exec.InSync d) {packet : Pm4Packet} (hstep : g.step E packet = some g') :
    g'.exec.InSync d := by
  obtain ⟨e,he,rfl⟩ := Option.map_eq_some_iff.mp hstep
  cases htoPacket : toPacket g.state (g.inputs E) packet with
  | none =>
    rw [htoPacket] at he
    cases he
    cases packet with
    | type3 opcode count body =>
      simp only [writeLabel]
      split_ifs
      · exact ⟨h.synced,h.whole⟩
      · exact h
    | _ => exact h
  | some p =>
    rw [htoPacket] at he
    exact h.handle he

lemma inSync_walk (h : g.exec.InSync d) {packets : List Pm4Packet}
    (hwalk : g.walk E packets = some g') : g'.exec.InSync d := by
  induction packets generalizing g with
  | nil =>
    cases hwalk
    exact h
  | cons packet packets ih =>
    obtain ⟨g₁,hstep,hrest⟩ := Option.bind_eq_some_iff.mp hwalk
    exact ih (inSync_step h hstep) hrest

lemma inSync_enter (h : Synced g.exec.cache d) (dirty : List (ℕ × ℕ)) :
    (g.enter dirty).exec.InSync d := Session.inSync_of_synced (h.applyDirty dirty) rfl

end Gpu

namespace StreamSession

variable {E : StreamEnv} {g : Gpu} {d : Display}

lemma synced_submit {r : Submitted} {dirty : List (ℕ × ℕ)} {dcb ccb : List Dword}
    (h : Synced g.exec.cache d) (hsubmit : g.submit E d dirty dcb ccb = some r) :
    Synced r.gpu.exec.cache r.display := by
  obtain ⟨g',hwalk,rfl⟩ := Option.map_eq_some_iff.mp hsubmit
  exact Session.synced_retire (Session.synced_submit (Gpu.inSync_walk (Gpu.inSync_enter h dirty) hwalk))

lemma synced (h : StreamSession E g d) : Synced g.exec.cache d := by
  induction h with
  | boot state bytes readable =>
    have hboot : Session E.tools ⟨.new,[],[],1,[],.initial,bytes,readable,[]⟩ _ := .boot _ _ _
    exact hboot.synced.1
  | submit dirty dcb ccb _ hsubmit ih => exact synced_submit ih hsubmit
  | guest bytes readable _ ih => exact ih
  | free addr size _ ih => exact Session.synced_retire (Session.synced_freeRange ih addr size)
  | rehash _ hperm ih =>
    obtain ⟨hwf,-⟩ := ResourceCache.rehash_emits hperm ih.wellFormed
    exact ⟨hwf,fun p hp => ih.copied p (hperm.mem_iff.mp hp),fun p hp => ih.fits p (hperm.mem_iff.mp hp),
      ih.samplers,ih.dummy,ih.fresh⟩

end StreamSession

/-- One replay goes on from passes already recorded, the other starts over: they hold the same
objects, but for what was freed before, and have the same bound, but for the pipeline until the
list binds one. -/
structure Continues (first : List RecordedPass) (piped : Bool) (r r' : Replay) : Prop where
  live : r.display.live = r'.display.live
  pipelines : r.display.pipelines = r'.display.pipelines
  retired : ∀ id copy, r'.display.retired id = some copy → r.display.retired id = some copy
  binds : { r.binds with pipeline := none } = { r'.binds with pipeline := none }
  pipeline : piped → r.binds.pipeline = r'.binds.pipeline
  passes : r.passes = first ++ r'.passes

/-- Commands that a replay from the start takes as one that goes on does: a texture that is
there, a draw with a pipeline bound before. -/
def BackendCmd.Sure (d : Display) (piped : Bool) : BackendCmd → Prop
  | .bindTexture _ imageId _ => d.isSampled imageId
  | .drawAuto _ | .drawIndexed _ _ _ => piped
  | _ => True

def BackendCmd.pipes : BackendCmd → Bool
  | .bindPipeline _ => true
  | _ => false

namespace Continues

variable {first : List RecordedPass} {piped : Bool} {r r' : Replay}

lemma held (h : Continues first piped r r') {id : ℕ} (hheld : (r'.display.held id).isSome) :
    r.display.held id = r'.display.held id := by
  unfold Display.held at hheld ⊢
  rw [h.live]
  cases hlive : r'.display.live id with
  | some copy => rfl
  | none =>
    cases hretired : r'.display.retired id with
    | none => simp [hlive, hretired] at hheld
    | some copy => simp [h.retired id copy hretired]

lemma isBuffer (h : Continues first piped r r') (id : ℕ) :
    r.display.isBuffer id = r'.display.isBuffer id := by
  unfold Display.isBuffer
  rw [h.live]

lemma isSampled (h : Continues first piped r r') {id : ℕ} (hsampled : r'.display.isSampled id) :
    r.display.isSampled id := by
  have hheld := h.held (Replay.isSampled_held hsampled)
  unfold Display.isSampled at hsampled ⊢
  rwa [hheld, h.live]

lemma isSampler (h : Continues first piped r r') (id : ℕ) :
    r.display.isSampler id = r'.display.isSampler id := by
  unfold Display.isSampler
  rw [h.live]

/-- With a pipeline bound, all of the binds are the same. -/
lemma binds_eq (h : Continues first true r r') : r.binds = r'.binds := by
  have hbinds := h.binds
  have hpipeline := h.pipeline rfl
  rcases hr : r.binds with ⟨p,v,s,c,t,vp,sc,rt⟩
  rcases hr' : r'.binds with ⟨p',v',s',c',t',vp',sc',rt'⟩
  simp_all

lemma weaken (h : Continues first piped r r') : Continues first false r r' :=
  ⟨h.live,h.pipelines,h.retired,h.binds,by simp,h.passes⟩

lemma update_live (h : Continues first piped r r') (cmd : BackendCmd) :
    (Replay.update r.display cmd).live = (Replay.update r'.display cmd).live ∧
      (Replay.update r.display cmd).pipelines = (Replay.update r'.display cmd).pipelines ∧
      ∀ id copy, (Replay.update r'.display cmd).retired id = some copy →
        (Replay.update r.display cmd).retired id = some copy := by
  cases cmd with
  | resource c =>
    refine ⟨congrArg (·.apply c) h.live,h.pipelines,fun id copy hcopy => ?_⟩
    simp only [Replay.update, Display.apply] at hcopy ⊢
    cases c with
    | freeResource x =>
      simp only at hcopy ⊢
      by_cases hid : id = x
      · subst hid
        rw [Function.update_self] at hcopy ⊢
        rw [h.held (by simp [hcopy]), hcopy]
      · rw [Function.update_of_ne hid] at hcopy ⊢
        exact h.retired id copy hcopy
    | _ => exact h.retired id copy hcopy
  | createPipeline id p =>
    simp only [Replay.update, h.pipelines]
    split_ifs
    · exact ⟨h.live,h.pipelines,h.retired⟩
    · exact ⟨h.live,rfl,h.retired⟩
  | _ => exact ⟨h.live,h.pipelines,h.retired⟩

lemma bind_alike (h : Continues first piped r r') {cmd : BackendCmd} (hsure : cmd.Sure r'.display piped) :
    { Replay.bind r.display r.binds cmd with pipeline := none } =
      { Replay.bind r'.display r'.binds cmd with pipeline := none } := by
  have hbinds := h.binds
  rcases hr : r.binds with ⟨p,v,s,c,t,vp,sc,rt⟩
  rcases hr' : r'.binds with ⟨p',v',s',c',t',vp',sc',rt'⟩
  rw [hr, hr'] at hbinds
  cases hbinds
  cases cmd with
  | bindVertexBuffer slot id stride
  | bindConstBuffer slot id
  | bindStorageBuffer slot id numRecords stride dstSel format pcOffset =>
    simp only [Replay.bind_vertexBuffer, Replay.bind_storageBuffer, Replay.bind_constBuffer, h.isBuffer]
    split_ifs <;> rfl
  | bindTexture slot imageId samplerId =>
    have hsampled : r'.display.isSampled imageId = true := hsure
    simp only [Replay.bind_texture, h.isSampled hsampled, hsampled, h.isSampler, Bool.true_and]
    split_ifs <;> rfl
  | _ => rfl

lemma bind_pipeline (h : Continues first piped r r') (cmd : BackendCmd) (hp : (piped || cmd.pipes) = true) :
    (Replay.bind r.display r.binds cmd).pipeline = (Replay.bind r'.display r'.binds cmd).pipeline := by
  cases cmd with
  | bindPipeline id => exact congrFun h.pipelines id
  | bindVertexBuffer slot id stride
  | bindConstBuffer slot id
  | bindStorageBuffer slot id numRecords stride dstSel format pcOffset
  | bindTexture slot imageId samplerId =>
    have hpipeline := h.pipeline (by simpa [BackendCmd.pipes] using hp)
    simp only [Replay.bind_vertexBuffer, Replay.bind_storageBuffer, Replay.bind_constBuffer,
      Replay.bind_texture]
    split_ifs <;> exact hpipeline
  | _ => exact h.pipeline (by simpa [BackendCmd.pipes] using hp)

lemma closes_eq (h : Continues first piped r r') {cmd : BackendCmd} (hsure : cmd.Sure r'.display piped) :
    r.closes cmd = r'.closes cmd := by
  cases cmd with
  | drawAuto count =>
    obtain rfl : piped = true := hsure
    simp only [Replay.closes, h.binds_eq]
  | drawIndexed id count t =>
    obtain rfl : piped = true := hsure
    simp only [Replay.closes, h.binds_eq, h.isBuffer]
  | _ => rfl

lemma step (h : Continues first piped r r') {cmd : BackendCmd} (hsure : cmd.Sure r'.display piped) :
    Continues first (piped || cmd.pipes) (r.step cmd) (r'.step cmd) := by
  obtain ⟨hlive,hpipelines,hretired⟩ := h.update_live cmd
  refine ⟨hlive,hpipelines,hretired,h.bind_alike hsure,h.bind_pipeline cmd,?_⟩
  simp only [Replay.step, h.closes_eq hsure, h.passes, List.append_assoc]

lemma resources (h : Continues first piped r r') (cmds : List ResourceCmd) :
    Continues first piped (r.run (cmds.map .resource)) (r'.run (cmds.map .resource)) := by
  induction cmds generalizing r r' with
  | nil => exact h
  | cons cmd cmds ih =>
    have hone : Continues first (piped || BackendCmd.pipes (.resource cmd)) (r.step (.resource cmd))
        (r'.step (.resource cmd)) := h.step trivial
    simp only [BackendCmd.pipes, Bool.or_false] at hone
    exact ih hone

end Continues

namespace Exec

/-- The commands so far, replayed on their own and after a first list. -/
structure Follows (d : Display) (first : List RecordedPass) (r : Replay) (piped : Bool) (e : Exec) :
    Prop where
  sync : e.InSync d
  replay : Continues first piped (r.run e.cmds) (replayCommandList d e.cmds)

namespace Follows

variable {d : Display} {first : List RecordedPass} {r : Replay} {piped : Bool} {e e' : Exec}
  {T : Toolchain}

lemma weaken (h : Follows d first r piped e) : Follows d first r false e := ⟨h.sync,h.replay.weaken⟩

lemma congr (h : Follows d first r piped e) (hsync : e'.InSync d) (hcmds : e'.cmds = e.cmds) :
    Follows d first r piped e' := ⟨hsync,by rw [hcmds]; exact h.replay⟩

lemma emit (h : Follows d first r piped e) {cmd : BackendCmd} (hcmd : ∀ c, cmd ≠ .resource c)
    (hsure : cmd.Sure (replayCommandList d e.cmds).display piped) :
    Follows d first r (piped || cmd.pipes) (e.emit cmd) := by
  refine ⟨h.sync.emit hcmd,?_⟩
  have hstep := h.replay.step hsure
  rwa [Exec.emit, r.run_append, replay_append]

lemma plain (h : Follows d first r piped e) {cmd : BackendCmd} (hcmd : ∀ c, cmd ≠ .resource c)
    (hpipes : cmd.pipes = false) (hsure : cmd.Sure (replayCommandList d e.cmds).display piped) :
    Follows d first r piped (e.emit cmd) := by
  have hone := h.emit hcmd hsure
  rwa [hpipes, Bool.or_false] at hone

lemma taken (h : Follows d first r piped e) {id : ℕ} (hsync : e'.InSync d) (htaken : e.Taken id e') :
    Follows d first r piped e' := by
  obtain ⟨t,ht⟩ := htaken
  obtain rfl := congrArg Prod.snd ht
  refine ⟨hsync,?_⟩
  rw [Exec.take, r.run_append, replay_append]
  exact h.replay.resources t.2.2

lemma bindPipeline (h : Follows d first r piped e) (p : HostPipeline) :
    Follows d first r true (e.bindPipeline p) := by
  have hsync := h.sync.bindPipeline p
  unfold Exec.bindPipeline at hsync ⊢
  cases hlook : e.pipelines.lookup p.key with
  | some id =>
    have hbind : Follows d first r (piped || BackendCmd.pipes (.bindPipeline id))
        (e.emit (.bindPipeline id)) := h.emit (by simp) trivial
    rwa [BackendCmd.pipes, Bool.or_true] at hbind
  | none =>
    rw [hlook] at hsync
    have hcreate : Follows d first r piped (e.emit (.createPipeline e.nextPipeline p)) :=
      h.plain (by simp) rfl trivial
    have hbind : Follows d first r (piped || BackendCmd.pipes (.bindPipeline e.nextPipeline))
        ((e.emit (.createPipeline e.nextPipeline p)).emit (.bindPipeline e.nextPipeline)) :=
      hcreate.emit (by simp) trivial
    rw [BackendCmd.pipes, Bool.or_true] at hbind
    exact hbind.congr hsync rfl

lemma bindTexture (h : Follows d first r piped e) {now : ℕ} {b : SamplerBinding × TextureSource}
    (hbind : e.bindTexture T now b = some e') : Follows d first r piped e' := by
  obtain ⟨⟨imageId,e₁⟩,himage,hbind⟩ := Option.bind_eq_some_iff.mp hbind
  obtain ⟨⟨samplerId,e₂⟩,hsampler,rfl⟩ := Option.map_eq_some_iff.mp hbind
  obtain ⟨hsync₁,hsampled⟩ := h.sync.fetchImage himage
  obtain ⟨hsync₂,-,hkeep⟩ := hsync₁.fetchSampler hsampler
  have h₂ := (h.taken hsync₁ (fetchImage_taken himage)).taken hsync₂ (fetchSampler_taken hsampler)
  refine h₂.plain (by simp) rfl ?_
  rw [BackendCmd.Sure, display_isSampled]
  exact hkeep _ hsampled

lemma bindConst (h : Follows d first r piped e) {now : ℕ} {c : ConstBufferBinding × BufferRange}
    (hbind : e.bindConst now c = some e') : Follows d first r piped e' := by
  obtain ⟨⟨id,e₁⟩,hget,rfl⟩ := Option.map_eq_some_iff.mp hbind
  exact (h.taken (h.sync.fetch rfl hget).1 (fetch_taken hget)).plain (by simp) rfl trivial

lemma bindStorage (h : Follows d first r piped e) {now : ℕ} {b : ℕ × BufferBinding × BufferRange}
    (hbind : e.bindStorage now b = some e') : Follows d first r piped e' := by
  obtain ⟨⟨id,e₁⟩,hget,rfl⟩ := Option.map_eq_some_iff.mp hbind
  exact (h.taken (h.sync.fetch rfl hget).1 (fetch_taken hget)).plain (by simp) rfl trivial

lemma bindVertex (h : Follows d first r piped e) {now : ℕ} {b : ℕ × BufferRange}
    (hbind : e.bindVertex now b = some e') : Follows d first r piped e' := by
  obtain ⟨⟨id,e₁⟩,hget,rfl⟩ := Option.map_eq_some_iff.mp hbind
  exact (h.taken (h.sync.fetch rfl hget).1 (fetch_taken hget)).plain (by simp) rfl trivial

lemma bindBuffers (h : Follows d first r piped e) {i : DrawInputs} {vs : HostShader} {bound : Bool}
    (hbind : e.bindBuffers i vs = some (e',bound)) : Follows d first r piped e' := by
  unfold Exec.bindBuffers at hbind
  split_ifs at hbind
  · cases hbind
    exact h
  · obtain ⟨e₁,hall,heq⟩ := Option.map_eq_some_iff.mp hbind
    cases heq
    exact bindAll_induct (fun _ _ _ _ h hb => bindStorage h hb) h hall
  · obtain ⟨e₁,hall,heq⟩ := Option.map_eq_some_iff.mp hbind
    cases heq
    exact bindAll_induct (fun _ _ _ _ h hb => bindVertex h hb) h hall

lemma commitTarget (h : Follows d first r piped e) (target : TargetDesc) :
    Follows d first r piped (e.commitTarget target) := by
  refine h.congr (h.sync.commitTarget target) ?_
  unfold Exec.commitTarget
  cases target.kind <;> rfl

lemma registerRenderTarget (h : Follows d first r piped e) {target : TargetDesc}
    (hreg : e.registerRenderTarget target = some e') : Follows d first r piped e' := by
  unfold Exec.registerRenderTarget at hreg
  split at hreg
  · cases hreg
    exact h
  · obtain ⟨⟨id,e₁⟩,hget,rfl⟩ := Option.map_eq_some_iff.mp hreg
    have htaken := h.taken (h.sync.fetchRenderTarget hget).1 (fetchRenderTarget_taken hget)
    exact htaken.plain (by simp) rfl trivial

lemma bindDraw (h : Follows d first r piped e) {i : DrawInputs} {vs ps : HostShader} {draw : DrawState}
    {res : Resolved} {ready : Bool} (hbind : e.bindDraw T i vs ps draw res = some (e',ready)) :
    Follows d first r true e' := by
  simp only [Exec.bindDraw, Option.bind_eq_bind, Option.pure_def] at hbind
  obtain ⟨e₁,htex,hbind⟩ := Option.bind_eq_some_iff.mp hbind
  obtain ⟨e₂,hconst,hbind⟩ := Option.bind_eq_some_iff.mp hbind
  obtain ⟨⟨e₃,bound⟩,hbuf,hbind⟩ := Option.bind_eq_some_iff.mp hbind
  have h₁ := bindAll_induct (fun _ _ _ _ h hb => bindTexture h hb) (h.bindPipeline _) htex
  have h₂ := bindAll_induct (fun _ _ _ _ h hb => bindConst h hb) h₁ hconst
  have h₃ := h₂.bindBuffers hbuf
  split_ifs at hbind
  · cases hbind
    have hview : Follows d first r true ((e₃.commitTarget draw.target).emit (.setViewport draw.viewport)) :=
      (h₃.commitTarget draw.target).plain (by simp) rfl trivial
    exact hview.plain (by simp) rfl trivial
  · cases hbind
    exact h₃

/-- A draw that is ready has its pipeline bound. -/
lemma setupDraw (h : Follows d first r false e) {i : DrawInputs} {ready : Bool}
    (hsetup : e.setupDraw T i = some (e',ready)) : Follows d first r ready e' := by
  have h₀ : Follows d first r false (e.resolveShaders T i.bound).2 :=
    h.congr ⟨h.sync.synced,h.sync.whole⟩ rfl
  simp only [Exec.setupDraw] at hsetup
  split at hsetup
  · cases hsetup
    exact h₀
  · split at hsetup
    · cases hsetup
      exact h₀
    · obtain ⟨e₁,hreg,hsetup⟩ := Option.bind_eq_some_iff.mp hsetup
      have h₁ := h₀.registerRenderTarget hreg
      split at hsetup
      · cases hsetup
        exact h₁
      · have hbound := h₁.bindDraw hsetup
        cases ready with
        | true => exact hbound
        | false => exact hbound.weaken

lemma drawIndexed (h : Follows d first r true e) {now base count : ℕ} {t : IndexType}
    (hdraw : e.drawIndexed now base count t = some e') : Follows d first r true e' := by
  unfold Exec.drawIndexed at hdraw
  split_ifs at hdraw
  · cases hdraw
    exact h
  · obtain ⟨⟨id,e₁⟩,hget,rfl⟩ := Option.map_eq_some_iff.mp hdraw
    exact (h.taken (h.sync.fetch rfl hget).1 (fetch_taken hget)).plain (by simp) rfl rfl

lemma dispatchIndexed (h : Follows d first r false e) {i : DrawInputs} {base count : ℕ}
    (hdraw : e.dispatchIndexed T i base count = some e') : Follows d first r false e' := by
  obtain ⟨⟨e₁,ready⟩,hsetup,hdraw⟩ := Option.bind_eq_some_iff.mp hdraw
  have h₁ := h.setupDraw hsetup
  cases ready with
  | true => exact (h₁.drawIndexed hdraw).weaken
  | false =>
    cases hdraw
    exact h₁

lemma handle (h : Follows d first r false e) {p : Packet} (hp : e.handle T p = some e') :
    Follows d first r false e' := by
  have hsync := h.sync.handle hp
  cases p with
  | drawIndexAuto i count =>
    obtain ⟨⟨e₁,ready⟩,hsetup,rfl⟩ := Option.map_eq_some_iff.mp hp
    have h₁ := h.setupDraw hsetup
    cases ready with
    | true =>
      have hdraw : Follows d first r true (e₁.emit (.drawAuto count)) := h₁.plain (by simp) rfl rfl
      exact hdraw.weaken
    | false => exact h₁
  | drawIndex2 i body | drawIndexOffset2 i body =>
    cases body with
    | none =>
      cases hp
      exact h
    | some b => exact h.dispatchIndexed hp
  | indexType t | indexBase base | indexBufferSize maxSize =>
    cases hp
    exact h.congr hsync rfl
  | dmaData src dst len =>
    cases hp
    refine h.congr hsync ?_
    unfold Exec.dmaData
    repeat' split
    all_goals rfl
  | acquireMem base size =>
    cases hp
    refine h.congr hsync ?_
    split_ifs <;> rfl

end Follows

end Exec

namespace Gpu

variable {E : StreamEnv} {g g' : Gpu} {d : Display} {first : List RecordedPass} {r : Replay}

lemma follows_step (h : g.exec.Follows d first r false) {packet : Pm4Packet}
    (hstep : g.step E packet = some g') : g'.exec.Follows d first r false := by
  have hsync := inSync_step h.sync hstep
  obtain ⟨e,he,rfl⟩ := Option.map_eq_some_iff.mp hstep
  cases htoPacket : toPacket g.state (g.inputs E) packet with
  | none =>
    rw [htoPacket] at he
    cases he
    refine h.congr hsync ?_
    cases packet with
    | type3 opcode count body =>
      simp only [writeLabel]
      split_ifs <;> rfl
    | _ => rfl
  | some p =>
    rw [htoPacket] at he
    exact h.handle he

lemma follows_walk (h : g.exec.Follows d first r false) {packets : List Pm4Packet}
    (hwalk : g.walk E packets = some g') : g'.exec.Follows d first r false := by
  induction packets generalizing g with
  | nil =>
    cases hwalk
    exact h
  | cons packet packets ih =>
    obtain ⟨g₁,hstep,hrest⟩ := Option.bind_eq_some_iff.mp hwalk
    exact ih (follows_step h hstep) hrest

/-- No packet of a stream fills again, with other bytes, what one of the draws reads. -/
def WalkKeeps (E : StreamEnv) (d : Display) (passes : List RecordedPass) (g : Gpu) :
    List Pm4Packet → Prop
  | [] => True
  | packet :: packets => (∀ p ∈ toPacket g.state (g.inputs E) packet,
        ∀ q ∈ g.exec.lookups E.tools p, g.exec.KeepsRead d passes q) ∧
      ∀ g' ∈ g.step E packet, WalkKeeps E d passes g' packets

instance decidableWalkKeeps (E : StreamEnv) (d : Display) (passes : List RecordedPass) :
    ∀ (g : Gpu) (packets : List Pm4Packet), Decidable (g.WalkKeeps E d passes packets)
  | _, [] => inferInstanceAs (Decidable True)
  | g, packet :: packets =>
      have := fun g' => decidableWalkKeeps E d passes g' packets
      inferInstanceAs (Decidable ((∀ p ∈ toPacket g.state (g.inputs E) packet,
        ∀ q ∈ g.exec.lookups E.tools p, g.exec.KeepsRead d passes q) ∧
          ∀ g' ∈ g.step E packet, WalkKeeps E d passes g' packets))

section Shows

variable {passes : List RecordedPass}

lemma shows_step (hsync : g.exec.InSync d)
    (hheld : ∀ id, Exec.ReadBy passes id → ((d.applyAll (resourceCmds g.exec.cmds)).held id).isSome)
    {packet : Pm4Packet} (hkeeps : ∀ p ∈ toPacket g.state (g.inputs E) packet,
      ∀ q ∈ g.exec.lookups E.tools p, g.exec.KeepsRead d passes q) (hstep : g.step E packet = some g')
    {id : ℕ} (hid : Exec.ReadBy passes id) :
    ((d.applyAll (resourceCmds g'.exec.cmds)).held id).isSome ∧
      (d.applyAll (resourceCmds g'.exec.cmds)).shows id =
        (d.applyAll (resourceCmds g.exec.cmds)).shows id := by
  obtain ⟨e,he,rfl⟩ := Option.map_eq_some_iff.mp hstep
  cases htoPacket : toPacket g.state (g.inputs E) packet with
  | none =>
    rw [htoPacket] at he
    cases he
    have hcmds : (g.writeLabel E packet).cmds = g.exec.cmds := by
      cases packet with
      | type3 opcode count body =>
        simp only [writeLabel]
        split_ifs <;> rfl
      | _ => rfl
    rw [hcmds]
    exact ⟨hheld id hid,rfl⟩
  | some p =>
    rw [htoPacket] at he
    exact Exec.shows_handle hsync hheld (hkeeps p htoPacket) he hid

lemma shows_walk (hsync : g.exec.InSync d)
    (hheld : ∀ id, Exec.ReadBy passes id → ((d.applyAll (resourceCmds g.exec.cmds)).held id).isSome)
    {packets : List Pm4Packet} (hkeeps : g.WalkKeeps E d passes packets)
    (hwalk : g.walk E packets = some g') {id : ℕ} (hid : Exec.ReadBy passes id) :
    (d.applyAll (resourceCmds g'.exec.cmds)).shows id =
      (d.applyAll (resourceCmds g.exec.cmds)).shows id := by
  induction packets generalizing g with
  | nil =>
    cases hwalk
    rfl
  | cons packet packets ih =>
    obtain ⟨g₁,hstep,hrest⟩ := Option.bind_eq_some_iff.mp hwalk
    have hone := fun id (hid : Exec.ReadBy passes id) => shows_step hsync hheld hkeeps.1 hstep hid
    exact (ih (inSync_step hsync hstep) (fun id hid => (hone id hid).1) (hkeeps.2 g₁ hstep) hrest).trans
      (hone id hid).2

end Shows

end Gpu

def ExecutedDraw.rename (f : ℕ → ℕ) (x : ExecutedDraw) : ExecutedDraw :=
  { x with pass := x.pass.rename f }

/-- The draws of the one list are those of the two, up to the names of the resources, and the
registers are left the same. -/
def Submitted.Joins (whole first second : Submitted) : Prop :=
  (∃ f : ℕ → ℕ, f.Injective ∧
    whole.replay.draws = (first.replay.draws ++ second.replay.draws).map (·.rename f)) ∧
  whole.gpu.state = second.gpu.state

/-- A stream submitted at once, and cut in two. -/
structure Cut (E : StreamEnv) (g : Gpu) (d : Display) (dirty ranges : List (ℕ × ℕ)) (p q : List Dword)
    (whole first second : Submitted) : Prop where
  session : StreamSession E g d
  complete_left : Complete p
  complete_right : Complete q
  submit_whole : g.submit E d dirty (p ++ q) [] = some whole
  submit_first : g.submit E d dirty p [] = some first
  submit_second : first.gpu.submit E first.display ranges q [] = some second

namespace Submitted

/-- Nothing but a pipeline is left bound. -/
def LeavesNothing (r : Submitted) : Prop := r.replay.binds.clear = r.replay.binds

end Submitted

section Cut

variable {E : StreamEnv} {g : Gpu} {d : Display} {dirty ranges : List (ℕ × ℕ)} {p q : List Dword}
  {whole first second : Submitted}

lemma submit_walk {g : Gpu} {d : Display} {dirty : List (ℕ × ℕ)} {p : List Dword} {r : Submitted}
    (h : g.submit E d dirty p [] = some r) :
    (g.enter dirty).walk E (decode p) = some r.gpu ∧
      r.replay = replayCommandList d r.gpu.exec.cmds := by
  obtain ⟨g',hwalk,rfl⟩ := Option.map_eq_some_iff.mp h
  rw [decode_nil, List.append_nil] at hwalk
  exact ⟨hwalk,rfl⟩

/-- The whole walk is the second one after the first. -/
lemma whole_walk (hp : Complete p) (hfirst : g.submit E d dirty p [] = some first)
    (hsecond : first.gpu.submit E first.display ranges q [] = some second)
    (hindex : IndexAgree .initial first.gpu.exec.index (decode q))
    (hquiet : first.gpu.exec.applyDirty ranges = first.gpu.exec) :
    g.submit E d dirty (p ++ q) [] =
      some ⟨second.gpu.after first.gpu.exec.cmds (first.gpu.exec.index.run (decode q)),
        replayCommandList d (first.gpu.exec.cmds ++ second.gpu.exec.cmds)⟩ := by
  obtain ⟨hwalk₁,-⟩ := submit_walk hfirst
  obtain ⟨hwalk₂,-⟩ := submit_walk hsecond
  have henter : (first.gpu.enter ranges).after first.gpu.exec.cmds first.gpu.exec.index = first.gpu := by
    simp [Gpu.after, Exec.after, Gpu.enter, hquiet]
  have hrest :=
    Gpu.after_walk (E := E) first.gpu.exec.cmds first.gpu.exec.index (first.gpu.enter ranges) hindex
  rw [henter, hwalk₂] at hrest
  simp only [Gpu.submit, decode_nil, List.append_nil, decode_append hp, Gpu.walk_append, hwalk₁,
    Option.bind_some, hrest, Option.map_some]
  rfl

/-- Where the second list starts: the objects of the first, nothing bound. -/
lemma continues_start (r : Replay) (hleft : r.binds.clear = r.binds) :
    Continues r.passes false r (Replay.start r.display.retire) := by
  refine ⟨rfl,rfl,fun id copy h => (by cases h),?_,by simp,(List.append_nil _).symm⟩
  rw [← hleft]
  rfl

lemma continues_second (hsession : StreamSession E g d) (hfirst : g.submit E d dirty p [] = some first)
    (hsecond : first.gpu.submit E first.display ranges q [] = some second)
    (hleft : first.LeavesNothing) :
    Continues first.replay.passes false (first.replay.run second.gpu.exec.cmds) second.replay := by
  obtain ⟨hwalk,hreplay⟩ := submit_walk hsecond
  have hsynced := StreamSession.synced_submit hsession.synced hfirst
  have hstart : (first.gpu.enter ranges).exec.Follows first.display first.replay.passes first.replay false :=
    ⟨Gpu.inSync_enter hsynced ranges,continues_start first.replay hleft⟩
  have hend := (Gpu.follows_walk hstart hwalk).replay
  rwa [hreplay]

/-- What the draws of the first list read is as it was. -/
lemma shows_first (hsession : StreamSession E g d) (hp : Complete p)
    (hcut : g.submit E d dirty (p ++ q) [] = some whole) (hfirst : g.submit E d dirty p [] = some first)
    (hkeeps : first.gpu.WalkKeeps E d first.replay.passes (decode q)) {pass : RecordedPass}
    (hpass : pass ∈ first.replay.passes) {id : ℕ} (hid : id ∈ pass.reads) :
    whole.replay.display.shows id = first.replay.display.shows id := by
  obtain ⟨hwalk,hwhole⟩ := submit_walk hcut
  obtain ⟨hwalk₁,hreplay⟩ := submit_walk hfirst
  have hsync := Gpu.inSync_walk (Gpu.inSync_enter hsession.synced dirty) hwalk₁
  rw [decode_append hp, Gpu.walk_append, hwalk₁, Option.bind_some] at hwalk
  have hheld : ∀ id, Exec.ReadBy first.replay.passes id →
      ((d.applyAll (resourceCmds first.gpu.exec.cmds)).held id).isSome := by
    rw [hreplay]
    exact fun id => Exec.held_of_readBy d first.gpu.exec.cmds
  have hshows := Gpu.shows_walk hsync hheld hkeeps hwalk ⟨pass,hpass,hid⟩
  rw [hwhole, hreplay, replayCommandList, replayCommandList, Replay.shows_run, Replay.shows_run]
  exact hshows

/-- A stream cut where nothing is left bound, where the second part reads no index state of
the first and fills nothing again that a draw of the first reads, and where no cached resource or
shader is dirtied in between, executes the same draws over the same contents. -/
theorem split_submission (hsession : StreamSession E g d) (hp : Complete p)
    (hfirst : g.submit E d dirty p [] = some first)
    (hsecond : first.gpu.submit E first.display ranges q [] = some second)
    (hindex : IndexAgree .initial first.gpu.exec.index (decode q)) (hleft : first.LeavesNothing)
    (hquiet : first.gpu.exec.applyDirty ranges = first.gpu.exec)
    (hkeeps : first.gpu.WalkKeeps E d first.replay.passes (decode q)) :
    ∃ whole, g.submit E d dirty (p ++ q) [] = some whole ∧
      whole.replay.draws = first.replay.draws ++ second.replay.draws ∧
      whole.gpu.state = second.gpu.state ∧
      whole.gpu.exec = second.gpu.exec.after first.gpu.exec.cmds whole.gpu.exec.index := by
  have hwhole := whole_walk hp hfirst hsecond hindex hquiet
  refine ⟨_,hwhole,?_,rfl,rfl⟩
  have hcontinues := continues_second hsession hfirst hsecond hleft
  obtain ⟨-,hreplay⟩ := submit_walk hfirst
  obtain ⟨-,hreplay₂⟩ := submit_walk hsecond
  have hrun : replayCommandList d (first.gpu.exec.cmds ++ second.gpu.exec.cmds) =
      first.replay.run second.gpu.exec.cmds := by
    rw [Exec.replay_append, hreplay]
  have hdraws : ∀ r : Replay, r.draws = r.passes.map fun pass => ⟨pass,pass.reads.map r.display.shows⟩ :=
    fun _ => rfl
  rw [hdraws, hdraws, hdraws, hrun, hcontinues.passes, List.map_append]
  congr 1
  · refine List.map_congr_left fun pass hpass => ?_
    refine congrArg (ExecutedDraw.mk pass) (List.map_congr_left fun id hid => ?_)
    rw [← hrun]
    exact shows_first hsession hp hwhole hfirst hkeeps hpass hid
  · refine List.map_congr_left fun pass hpass => ?_
    refine congrArg (ExecutedDraw.mk pass) (List.map_congr_left fun id hid => ?_)
    have hheld := Replay.passesHeld_replay first.display second.gpu.exec.cmds
    rw [← hreplay₂] at hheld
    unfold Display.shows
    rw [hcontinues.held (hheld pass hpass id hid)]

end Cut

section Examples

lemma Submitted.Joins.map {whole first second : Submitted} (h : whole.Joins first second) {β : Type}
    {k : ExecutedDraw → β} (hk : ∀ f x, k (x.rename f) = k x) :
    whole.replay.draws.map k = first.replay.draws.map k ++ second.replay.draws.map k := by
  obtain ⟨⟨f,-,hdraws⟩,-⟩ := h
  rw [hdraws, List.map_map, ← List.map_append]
  exact List.map_congr_left fun x _ => hk f x

/-- An environment in which labels write nothing. -/
def plainEnv (inputs : GpuState → DrawInputs) : StreamEnv :=
  ⟨moveTools,fun s _ _ => inputs s,fun _ _ bytes => bytes⟩

/-- The driver at boot, with shaders bound over the programs that the registers name: the vertex
shader at 0x100 and the pixel shader at 0x200. -/
def bootGpu (shaders : BoundShaders) : Gpu where
  state.banks bank addr :=
    if bank ≠ .sh then none
    else if addr = pgmLo .vertex then some 1
    else if addr = pgmLo .pixel then some 2
    else if addr = pgmHi .vertex ∨ addr = pgmHi .pixel then some 0
    else none
  state.shaders := shaders
  exec := bootExec

def embeddedGpu : Gpu := bootGpu (Exec.probe 0).bound

def streamGpu : Gpu := bootGpu ⟨none,some (.embedded .pixel 1)⟩

def texelGpu : Gpu := bootGpu ⟨some (.embedded .vertex 0),none⟩

lemma session_bootGpu (E : StreamEnv) (s : GpuState) :
    StreamSession E ⟨s,bootExec⟩ emptyDisplay := .boot _ _ _

def drawAutoWords : List Dword := [t3Header itDrawIndexAuto 2,3,0]

def drawIndex2Words (base : Dword) : List Dword := [t3Header itDrawIndex2 5,0,base,0,3,0]

def indexTypeWords (t : Dword) : List Dword := [t3Header itIndexType 1,t]

/-- A copy of four bytes from 0x2000. -/
def dmaDataWords (dst : Dword) : List Dword := [t3Header itDmaData 6,0,0x2000,0,dst,0,4]

def ExecutedDraw.elemType (x : ExecutedDraw) : Option IndexType :=
  match x.pass.draw with
  | .auto _ => none
  | .indexed _ _ t => some t

/-- The draws or registers after the cut stream are others than those after the whole. -/
def CutShows (E : StreamEnv) (g : Gpu) (d : Display) (ranges : List (ℕ × ℕ)) (p q : List Dword) : Prop :=
  ∃ whole first second, Cut E g d [] ranges p q whole first second ∧ ¬whole.Joins first second

/-- What a run of both shows at some feature of the draws tells them apart. -/
lemma cutShows_of_run {β : Type} [DecidableEq β] {k : ExecutedDraw → β}
    (hk : ∀ f x, k (x.rename f) = k x) {E : StreamEnv} {s : GpuState} {ranges : List (ℕ × ℕ)}
    {p q : List Dword} (hp : Complete p) (hq : Complete q)
    (hrun : ((⟨s,bootExec⟩ : Gpu).submit E emptyDisplay [] (p ++ q) []).bind (fun whole =>
      ((⟨s,bootExec⟩ : Gpu).submit E emptyDisplay [] p []).bind fun first =>
        (first.gpu.submit E first.display ranges q []).map fun second =>
          decide (whole.replay.draws.map k =
            first.replay.draws.map k ++ second.replay.draws.map k)) = some false) :
    CutShows E ⟨s,bootExec⟩ emptyDisplay ranges p q := by
  obtain ⟨whole,hwhole,hrun⟩ := Option.bind_eq_some_iff.mp hrun
  obtain ⟨first,hfirst,hrun⟩ := Option.bind_eq_some_iff.mp hrun
  obtain ⟨second,hsecond,hrun⟩ := Option.map_eq_some_iff.mp hrun
  refine ⟨whole,first,second,⟨session_bootGpu E s,hp,hq,hwhole,hfirst,hsecond⟩,fun h => ?_⟩
  exact of_decide_eq_false hrun (h.map hk)

/-- A first part that leaves an index type for the indexed draw of the second. -/
lemma cutShows_indexType : CutShows (plainEnv fun _ => Exec.probe 0) embeddedGpu emptyDisplay []
    (indexTypeWords 1) (drawIndex2Words 0x1000) := by
  refine cutShows_of_run (k := ExecutedDraw.elemType) (fun f x => ?_) (by decide) (by decide)
    (by decide +kernel)
  unfold ExecutedDraw.elemType
  cases hdraw : x.pass.draw <;> simp [ExecutedDraw.rename, RecordedPass.rename, hdraw]

/-- The target of a draw as the primitive type tells. -/
def targetSwitch (s : GpuState) : DrawInputs :=
  if s.banks .uconfig vgtPrimitiveType = none then offscreenDraw else Exec.probe 0

/-- A first part that ends in a draw given up on with its target bound. -/
lemma cutShows_givenUp : CutShows (plainEnv targetSwitch) embeddedGpu emptyDisplay []
    (drawIndex2Words 0) ([t3Header (RegBank.opcode .uconfig) 2,0x242,4] ++ drawAutoWords) := by
  refine cutShows_of_run (k := fun x => x.pass.target.isSome) (fun f x => ?_) (by decide) (by decide)
    (by decide +kernel)
  simp [ExecutedDraw.rename, RecordedPass.rename]

/-- A second part that fills the buffer which a draw of the first reads. -/
lemma cutShows_upload : CutShows (plainEnv fun _ => streamDraw)
    streamGpu emptyDisplay []
    drawAutoWords (dmaDataWords 0x1000 ++ drawAutoWords) :=
  cutShows_of_run (k := ExecutedDraw.contents) (fun _ _ => rfl) (by decide) (by decide)
    (by decide +kernel)

/-- A draw that samples four texels at 0x1000. -/
def texelDraw : DrawInputs :=
  { sampleDraw with
    texture := fun _ => some ⟨0x1000,16,2,2,2,.linear,10,0,
      ⟨.nearest,.nearest,.clampToEdge,.clampToEdge⟩⟩ }

/-- A first part that writes over the texels it sampled, as the second submission finds
reported. -/
lemma cutShows_reported : CutShows (plainEnv fun _ => texelDraw) texelGpu emptyDisplay
    [(0x1000,4)] (drawAutoWords ++ dmaDataWords 0x1000) drawAutoWords :=
  cutShows_of_run (k := ExecutedDraw.contents) (fun _ _ => rfl) (by decide) (by decide)
    (by decide +kernel)

/-- A first part that writes over the pixel shader it drew with: the second submission compiles
it anew, the whole one draws on with what was cached. -/
lemma cutShows_recompiled : CutShows (plainEnv fun _ => texelDraw) texelGpu emptyDisplay
    [(0x200,4)] (drawAutoWords ++ dmaDataWords 0x200) drawAutoWords :=
  cutShows_of_run (k := ExecutedDraw.contents) (fun _ _ => rfl) (by decide) (by decide)
    (by decide +kernel)

/-- A cut can show though nothing is written in between: by the index type, by what a draw
leaves bound and by the moment of an upload; and by what the first part itself wrote, over a
texture or over a shader. -/
theorem not_joins_cut :
    (¬∀ (E : StreamEnv) (g : Gpu) (d : Display) (dirty : List (ℕ × ℕ)) (p q : List Dword)
        (whole first second : Submitted),
          Cut E g d dirty [] p q whole first second → whole.Joins first second) ∧
    CutShows (plainEnv targetSwitch) embeddedGpu emptyDisplay [] (drawIndex2Words 0)
      ([t3Header (RegBank.opcode .uconfig) 2,0x242,4] ++ drawAutoWords) ∧
    CutShows (plainEnv fun _ => streamDraw) streamGpu emptyDisplay []
      drawAutoWords (dmaDataWords 0x1000 ++ drawAutoWords) ∧
    CutShows (plainEnv fun _ => texelDraw) texelGpu emptyDisplay [(0x1000,4)]
      (drawAutoWords ++ dmaDataWords 0x1000) drawAutoWords ∧
    CutShows (plainEnv fun _ => texelDraw) texelGpu emptyDisplay [(0x200,4)]
      (drawAutoWords ++ dmaDataWords 0x200) drawAutoWords := by
  refine ⟨fun h => ?_,cutShows_givenUp,cutShows_upload,cutShows_reported,cutShows_recompiled⟩
  obtain ⟨whole,first,second,hcut,hjoins⟩ := cutShows_indexType
  exact hjoins (h _ _ _ _ _ _ _ _ _ hcut)

/-- Both parts draw from the buffer, the second with an index type of its own. -/
theorem split_submission_retyped : ∃ whole first second,
    Cut (plainEnv fun _ => streamDraw) streamGpu emptyDisplay [] []
      (indexTypeWords 1 ++ drawAutoWords) (indexTypeWords 0 ++ drawIndex2Words 0x1000)
      whole first second ∧
    whole.replay.draws = first.replay.draws ++ second.replay.draws ∧
    whole.replay.draws.map (·.elemType) = [none,some .u16] := by
  have hrun : ((streamGpu.submit (plainEnv fun _ => streamDraw)
      emptyDisplay [] (indexTypeWords 1 ++ drawAutoWords) []).bind fun first =>
        (first.gpu.submit (plainEnv fun _ => streamDraw) first.display []
          (indexTypeWords 0 ++ drawIndex2Words 0x1000) []).map fun second =>
            decide (first.gpu.exec.index = ⟨.u32,0,0⟩ ∧ first.replay.binds.clear = first.replay.binds ∧
              first.gpu.WalkKeeps (plainEnv fun _ => streamDraw) emptyDisplay first.replay.passes
                (decode (indexTypeWords 0 ++ drawIndex2Words 0x1000)) ∧
              (first.replay.draws ++ second.replay.draws).map (·.elemType) = [none,some .u16])) =
      some true := by
    decide +kernel
  obtain ⟨first,hfirst,hrest⟩ := Option.bind_eq_some_iff.mp hrun
  obtain ⟨second,hsecond,hchecks⟩ := Option.map_eq_some_iff.mp hrest
  obtain ⟨hbase,hleft,hkeeps,helems⟩ := of_decide_eq_true hchecks
  have hindex : IndexAgree .initial first.gpu.exec.index
      (decode (indexTypeWords 0 ++ drawIndex2Words 0x1000)) := by
    have hdecode : decode (indexTypeWords 0 ++ drawIndex2Words 0x1000) =
        [.type3 itIndexType 1 [0],.type3 itDrawIndex2 5 [0,0x1000,0,3,0]] := by decide
    rw [hbase, hdecode]
    refine ⟨⟨?_,?_⟩,⟨fun _ b hb => ⟨rfl,?_⟩,?_⟩,trivial⟩
    · exact fun h => absurd h (by decide)
    · exact fun h => absurd h (by decide)
    · cases hb
      exact fun h => absurd h (by decide)
    · exact fun h => absurd h (by decide)
  have hquiet : first.gpu.exec.applyDirty [] = first.gpu.exec := by
    simp [Exec.applyDirty, ResourceCache.applyDirty, ResourceCache.markDirty]
  obtain ⟨whole,hwhole,hdraws,-⟩ := split_submission (session_bootGpu _ _) (by decide) hfirst hsecond
    hindex hleft hquiet hkeeps
  exact ⟨whole,first,second,⟨session_bootGpu _ _,by decide,by decide,hwhole,hfirst,hsecond⟩,hdraws,
    by rw [hdraws, helems]⟩

end Examples

end Unemups4.Gnm
