import Unemups4.Fallible
import Unemups4.DisplaySync

/-! Two executors over one display of which the second holds more shaders and pipelines: the
same packets give the same passes, unless a draw finds something else in what only the second
holds. -/
namespace Unemups4.Gnm
open Gcn Fallible

lemma resolveTexture_fst {i : DrawInputs} {rts : List RegisteredRt} {sb : SamplerBinding}
    {t : SamplerBinding × TextureSource} (h : i.resolveTexture rts sb = some t) : t.1 = sb := by
  obtain ⟨range,-,h⟩ := Option.bind_eq_some_iff.mp h
  split at h
  · cases h
    rfl
  · split_ifs at h
    cases h
    rfl

lemma resolveTextures_fst {i : DrawInputs} {rts : List RegisteredRt} {sbs : List SamplerBinding}
    {ts : List (SamplerBinding × TextureSource)} (h : sbs.mapM (i.resolveTexture rts) = some ts) :
    ts.map (·.1) = sbs := by
  induction sbs generalizing ts with
  | nil =>
    cases h
    rfl
  | cons sb sbs ih =>
    simp only [List.mapM_cons, Option.bind_eq_bind, Option.pure_def] at h
    obtain ⟨t,ht,h⟩ := Option.bind_eq_some_iff.mp h
    obtain ⟨ts',hts,h⟩ := Option.bind_eq_some_iff.mp h
    cases h
    simp [resolveTexture_fst ht, ih hts]

lemma resolve_textures {i : DrawInputs} {rts : List RegisteredRt} {vs ps : HostShader} {r : Resolved}
    (h : i.resolve rts vs ps = some r) : r.textures.map (·.1) = ps.samplers := by
  simp only [DrawInputs.resolve, Option.bind_eq_bind, Option.pure_def] at h
  obtain ⟨vsConst,-,h⟩ := Option.bind_eq_some_iff.mp h
  obtain ⟨psConst,-,h⟩ := Option.bind_eq_some_iff.mp h
  obtain ⟨textures,htex,h⟩ := Option.bind_eq_some_iff.mp h
  obtain ⟨layout,-,h⟩ := Option.bind_eq_some_iff.mp h
  cases h
  exact resolveTextures_fst htex

/-- A key and its shaders determine all of it. -/
def HostPipeline.ofKey (key : PipelineKey) (vs ps : HostShader) : HostPipeline where
  vsSpirv := vs.spirv
  psSpirv := ps.spirv
  key := key
  vertexStorage := vs.buffers.map fun b => ⟨⟨b.set,b.binding⟩,b.strideBytes⟩
  pushConstants := if vs.buffers ≠ [] then vs.io.bind pushConstantEnd else none
  textures := ps.samplers.map fun sb => ⟨sb.set,sb.binding⟩
  constStorage := key.constStorage.map fun slot => ⟨slot,0⟩
  constStorageFragment := key.constStorageFragment.map fun slot => ⟨slot,0⟩

lemma hostPipeline_eq_ofKey {i : DrawInputs} {rts : List RegisteredRt} {vs ps : HostShader}
    {r : Resolved} (h : i.resolve rts vs ps = some r) (b : BoundShaders) (draw : DrawState) :
    hostPipeline b vs ps draw r = .ofKey (pipelineKey b vs ps draw r) vs ps := by
  have hslots : (r.textures.map fun t => (⟨t.1.set,t.1.binding⟩ : Slot)) =
      ps.samplers.map fun sb => ⟨sb.set,sb.binding⟩ := by
    rw [← resolve_textures h, List.map_map]
    rfl
  simp only [hostPipeline, HostPipeline.ofKey, pipelineKey, hslots, Option.map_map, Function.comp_def]

/-- What a draw wants follows from its key and the shaders that it gets. -/
lemma Exec.wants_eq_ofKey {T : Toolchain} {e : Exec} {i : DrawInputs} {p : HostPipeline}
    (h : e.wants T i = some p) :
    ∃ pair, (e.resolveShaders T i.bound).1 = some pair ∧ p = .ofKey p.key pair.1 pair.2 := by
  simp only [Exec.wants, Option.bind_eq_bind, Option.pure_def] at h
  obtain ⟨⟨vs,ps⟩,hpair,h⟩ := Option.bind_eq_some_iff.mp h
  obtain ⟨draw,-,h⟩ := Option.bind_eq_some_iff.mp h
  obtain ⟨r,hr,h⟩ := Option.bind_eq_some_iff.mp h
  cases h
  exact ⟨(vs,ps),hpair,hostPipeline_eq_ofKey hr i.bound draw⟩

/-- How much of the binds two runs agree on: all but the pipeline and the rectangles, all
but the rectangles, or all. -/
inductive Agreement where
  | bare
  | piped
  | full

def Binds.seen : Agreement → Binds → Binds
  | .bare, b => { b with pipeline := none, viewport := none, scissor := none }
  | .piped, b => { b with viewport := none, scissor := none }
  | .full, b => b

lemma Binds.seen_bare {l : Agreement} {b b' : Binds} (h : b.seen l = b'.seen l) :
    b.seen .bare = b'.seen .bare := by
  have hbare : ∀ x : Binds, (x.seen l).seen .bare = x.seen .bare := by
    intro x
    cases l <;> rfl
  rw [← hbare b, h, hbare]

/-- Commands that bind something the draw may or may not use. -/
def BackendCmd.isPlain : BackendCmd → Bool
  | .createPipeline _ _ | .bindPipeline _ | .drawAuto _ | .drawIndexed _ _ _ => false
  | _ => true

namespace Replay

/-- The two replays have the same host objects but for pipelines, the same passes, and
agree on the binds. -/
structure Alike (l : Agreement) (r r' : Replay) : Prop where
  live : r.display.live = r'.display.live
  retired : r.display.retired = r'.display.retired
  passes : r.passes = r'.passes
  binds : r.binds.seen l = r'.binds.seen l

variable {l : Agreement} {r r' : Replay}

lemma Alike.isBuffer (h : r.Alike l r') (id : ℕ) : r.display.isBuffer id = r'.display.isBuffer id := by
  simp [Display.isBuffer, h.live]

lemma Alike.isSampled (h : r.Alike l r') (id : ℕ) :
    r.display.isSampled id = r'.display.isSampled id := by
  simp [Display.isSampled, Display.held, h.live, h.retired]

lemma Alike.isSampler (h : r.Alike l r') (id : ℕ) :
    r.display.isSampler id = r'.display.isSampler id := by
  simp [Display.isSampler, h.live]

lemma seen_bind (h : r.Alike l r') {cmd : BackendCmd} (hcmd : cmd.isPlain) :
    (bind r.display r.binds cmd).seen l = (bind r'.display r'.binds cmd).seen l := by
  have hseen := h.binds
  cases cmd with
  | createPipeline id p => cases hcmd
  | bindPipeline id => cases hcmd
  | drawAuto count => cases hcmd
  | drawIndexed id count t => cases hcmd
  | resource cmd => exact hseen
  | bindTexture slot imageId samplerId =>
    simp only [bind_texture, h.isSampled, h.isSampler]
    split_ifs
    · cases l <;> simp_all [Binds.seen, Binds.bindTexture]
    · exact hseen
  | bindVertexBuffer | bindStorageBuffer | bindConstBuffer =>
    simp only [bind_vertexBuffer, bind_storageBuffer, bind_constBuffer, h.isBuffer]
    split_ifs
    · cases l <;> simp_all [Binds.seen]
    · exact hseen
  | _ => cases l <;> simp_all [bind, Binds.accept, Binds.seen]

lemma closes_of_isPlain {cmd : BackendCmd} (hcmd : cmd.isPlain) : r.closes cmd = none := by
  cases cmd <;> first | rfl | cases hcmd

/-- The same bind in both. -/
lemma Alike.step (h : r.Alike l r') {cmd : BackendCmd} (hcmd : cmd.isPlain) :
    (r.step cmd).Alike l (r'.step cmd) := by
  refine ⟨?_,?_,?_,seen_bind h hcmd⟩
  · cases cmd with
    | resource cmd => exact congrArg (Backend.apply · cmd) h.live
    | createPipeline id p => cases hcmd
    | _ => exact h.live
  · cases cmd with
    | resource cmd =>
      cases cmd <;> simp [Replay.step, update, Display.apply, Display.held, h.live, h.retired]
    | createPipeline id p => cases hcmd
    | _ => exact h.retired
  · simp [Replay.step, closes_of_isPlain hcmd, h.passes]

lemma Alike.run (h : r.Alike l r') {cmds : List BackendCmd} (hcmds : ∀ cmd ∈ cmds, cmd.isPlain) :
    (r.run cmds).Alike l (r'.run cmds) := by
  induction cmds generalizing r r' with
  | nil => exact h
  | cons cmd cmds ih =>
    exact ih (h.step (hcmds cmd (by simp))) fun c hc => hcmds c (List.mem_cons_of_mem _ hc)

lemma pipelines_step {cmd : BackendCmd} (hcmd : ∀ id p, cmd ≠ .createPipeline id p) :
    (r.step cmd).display.pipelines = r.display.pipelines := by
  cases cmd with
  | createPipeline id p => exact absurd rfl (hcmd id p)
  | _ => rfl

lemma pipelines_run {cmds : List BackendCmd} (hcmds : ∀ cmd ∈ cmds, ∀ id p, cmd ≠ .createPipeline id p) :
    (r.run cmds).display.pipelines = r.display.pipelines := by
  induction cmds generalizing r with
  | nil => rfl
  | cons cmd cmds ih =>
    have hrest := ih (r := r.step cmd) fun c hc => hcmds c (List.mem_cons_of_mem _ hc)
    exact hrest.trans (pipelines_step (hcmds cmd (by simp)))

/-- The draw records the same pass in both. -/
lemma Alike.draw (h : r.Alike .full r') {cmd : BackendCmd} (hcmd : isDraw cmd) :
    (r.step cmd).Alike .full (r'.step cmd) := by
  have hbinds : r.binds = r'.binds := h.binds
  have hcloses : r.closes cmd = r'.closes cmd := by
    cases cmd with
    | drawAuto count => simp [closes, hbinds]
    | drawIndexed id count t => simp [closes, hbinds, h.isBuffer]
    | _ => cases hcmd
  refine ⟨?_,?_,?_,?_⟩
  · cases cmd with
    | drawAuto count => exact h.live
    | drawIndexed id count t => exact h.live
    | _ => cases hcmd
  · cases cmd with
    | drawAuto count => exact h.retired
    | drawIndexed id count t => exact h.retired
    | _ => cases hcmd
  · simp [Replay.step, hcloses, h.passes]
  · cases cmd with
    | drawAuto count => simp [Replay.step, bind, Binds.accept, hbinds]
    | drawIndexed id count t => simp [Replay.step, bind, Binds.accept, hbinds]
    | _ => cases hcmd

lemma Alike.bare (h : r.Alike l r') : r.Alike .bare r' :=
  ⟨h.live,h.retired,h.passes,Binds.seen_bare h.binds⟩

end Replay

/-- What the second of two runs holds beyond the first, and the shaders it has kept. -/
structure Stock where
  shader : ShaderCacheKey → Option GcnShader
  pipeline : PipelineKey → Option HostPipeline
  kept : ShaderCacheKey → Option GcnShader

def Stock.none : Stock := ⟨fun _ => .none,fun _ => .none,fun _ => .none⟩

namespace Exec

/-- The pipeline that a cached key stands for at the display. -/
def builtAt (d : Display) (e : Exec) (key : PipelineKey) : Option HostPipeline :=
  (e.pipelines.lookup key).bind (replayCommandList d e.cmds).display.pipelines

/-- Every minted pipeline is built under its id, and no other id is taken. -/
structure Minted (d : Display) (e : Exec) : Prop where
  built : ∀ key id, e.pipelines.lookup key = some id →
    ((replayCommandList d e.cmds).display.pipelines id).isSome
  fresh : ∀ id, e.nextPipeline ≤ id → (replayCommandList d e.cmds).display.pipelines id = none

/-- Two executors that differ in their pipeline ids, and in the stock of the second. -/
structure Sim (d : Display) (l : Agreement) (s : Stock) (e e' : Exec) : Prop where
  cache : e.cache = e'.cache
  renderTargets : e.renderTargets = e'.renderTargets
  index : e.index = e'.index
  bytes : e.bytes = e'.bytes
  readable : e.readable = e'.readable
  shaders : ∀ key, served e'.shaders key = (served e.shaders key <|> s.shader key)
  kept : ∀ key host, s.kept key = some host → served e'.shaders key = some host
  pipelines : ∀ key, e'.builtAt d key = (e.builtAt d key <|> s.pipeline key)
  replay : (replayCommandList d e.cmds).Alike l (replayCommandList d e'.cmds)
  minted : e.Minted d
  minted' : e'.Minted d

/-- The draw finds nothing else in the stock than what it would make itself. -/
structure Suits (T : Toolchain) (d : Display) (s : Stock) (e : Exec) (i : DrawInputs) : Prop where
  shader : ∀ stage t host, T.texts e.read i.bound stage = some (.binary (some t)) →
    served e.shaders t.key = none → s.shader t.key = some host → T.compile t = some host
  pipeline : ∀ p q, e.wants T i = some p → e.builtAt d p.key = none → s.pipeline p.key = some q →
    p = q

/-- Every draw of a walk is `ok` where it is reached. -/
def WalkAll (T : Toolchain) (ok : Exec → DrawInputs → Prop) : Exec → List Packet → Prop
  | _, [] => True
  | e, p :: ps => (∀ i, p.inputs = some i → ok e i) ∧
      ∀ e', e.handle T p = some e' → WalkAll T ok e' ps

variable {d : Display} {l : Agreement} {s : Stock} {e e' : Exec} {T : Toolchain}

lemma suits_none (T : Toolchain) (d : Display) (e : Exec) (i : DrawInputs) : Suits T d .none e i :=
  ⟨fun _ _ _ _ _ h => (Option.some_ne_none _ h.symm).elim,
    fun _ _ _ _ h => (Option.some_ne_none _ h.symm).elim⟩

lemma WalkAll.of_forall {ok : Exec → DrawInputs → Prop} (h : ∀ e i, ok e i) (ps : List Packet) :
    e.WalkAll T ok ps := by
  induction ps generalizing e with
  | nil => trivial
  | cons p ps ih => exact ⟨fun i _ => h e i,fun _ _ => ih⟩

lemma replay_append (d : Display) (as bs : List BackendCmd) :
    replayCommandList d (as ++ bs) = (replayCommandList d as).run bs := Replay.run_append _ _ _

lemma Minted.append (h : e.Minted d) {cmds : List BackendCmd}
    (hcmds : ∀ cmd ∈ cmds, ∀ id p, cmd ≠ .createPipeline id p) :
    Minted d { e with cmds := e.cmds ++ cmds } := by
  have hsame := Replay.pipelines_run (r := replayCommandList d e.cmds) hcmds
  rw [← replay_append] at hsame
  refine ⟨fun key id hid => ?_,fun id hid => ?_⟩ <;> dsimp only
  · rw [hsame]
    exact h.built key id hid
  · rw [hsame]
    exact h.fresh id hid

lemma Sim.bare (h : Sim d l s e e') : Sim d .bare s e e' := { h with replay := h.replay.bare }

lemma builtAt_append {cmds : List BackendCmd} (hcmds : ∀ cmd ∈ cmds, ∀ id p, cmd ≠ .createPipeline id p)
    (e : Exec) : builtAt d { e with cmds := e.cmds ++ cmds } = e.builtAt d := by
  have hsame := Replay.pipelines_run (r := replayCommandList d e.cmds) hcmds
  rw [← replay_append] at hsame
  funext key
  simp only [builtAt, hsame]

/-- Both go on by the same commands, none of which creates a pipeline. -/
lemma Sim.append (h : Sim d l s e e') {c c' : ResourceCache} (hcache : c = c') {cmds : List BackendCmd}
    (hcreate : ∀ cmd ∈ cmds, ∀ id p, cmd ≠ .createPipeline id p) {l' : Agreement}
    (hreplay : ((replayCommandList d e.cmds).run cmds).Alike l' ((replayCommandList d e'.cmds).run cmds)) :
    Sim d l' s { e with cache := c, cmds := e.cmds ++ cmds }
      { e' with cache := c', cmds := e'.cmds ++ cmds } where
  cache := hcache
  renderTargets := h.renderTargets
  index := h.index
  bytes := h.bytes
  readable := h.readable
  shaders := h.shaders
  kept := h.kept
  pipelines key := by
    have hleft := congrFun (builtAt_append (d := d) hcreate e) key
    have hright := congrFun (builtAt_append (d := d) hcreate e') key
    exact (hright.trans (h.pipelines key)).trans (by rw [← hleft]; rfl)
  replay := by simpa only [replay_append] using hreplay
  minted := ⟨(h.minted.append hcreate).built,(h.minted.append hcreate).fresh⟩
  minted' := ⟨(h.minted'.append hcreate).built,(h.minted'.append hcreate).fresh⟩

lemma Sim.emit (h : Sim d l s e e') (cmd : BackendCmd) (hcmd : cmd.isPlain) :
    Sim d l s (e.emit cmd) (e'.emit cmd) := by
  refine h.append h.cache ?_ (h.replay.run (by simpa using hcmd))
  rintro c hc id p rfl
  rw [List.mem_singleton] at hc
  subst hc
  cases hcmd

lemma Sim.draw (h : Sim d .full s e e') (cmd : BackendCmd) (hcmd : Replay.isDraw cmd) :
    Sim d .full s (e.emit cmd) (e'.emit cmd) := by
  refine h.append h.cache ?_ (h.replay.draw hcmd)
  rintro c hc id p rfl
  rw [List.mem_singleton] at hc
  subst hc
  cases hcmd

/-- The two sides name the same id and stay alike. -/
inductive Tied (d : Display) (l : Agreement) (s : Stock) : ℕ × Exec → ℕ × Exec → Prop
  | mk (id : ℕ) {e e' : Exec} : Sim d l s e e' → Tied d l s (id,e) (id,e')

lemma Sim.take (h : Sim d l s e e') (r : ℕ × ResourceCache × List ResourceCmd) :
    Tied d l s (e.take r) (e'.take r) := by
  have hplain : ∀ cmd ∈ r.2.2.map BackendCmd.resource, cmd.isPlain := by
    intro cmd hcmd
    obtain ⟨c,-,rfl⟩ := List.mem_map.mp hcmd
    rfl
  refine .mk r.1 (h.append rfl ?_ (h.replay.run hplain))
  rintro cmd hcmd id p rfl
  cases hplain _ hcmd

/-- Whether the pipeline was minted before or not, the one of its key ends up bound. -/
lemma bindPipeline_replay (h : e.Minted d) (p : HostPipeline) :
    (e.bindPipeline p).Minted d ∧
      (∀ key, (e.bindPipeline p).builtAt d key =
        if key = p.key then some ((e.builtAt d p.key).getD p) else e.builtAt d key) ∧
      ∃ f, replayCommandList d (e.bindPipeline p).cmds =
        { replayCommandList d e.cmds with
          display.pipelines := f
          binds.pipeline := some ((e.builtAt d p.key).getD p) } := by
  unfold Exec.bindPipeline
  cases hlook : e.pipelines.lookup p.key with
  | some id =>
    dsimp only
    obtain ⟨q,hq⟩ := Option.isSome_iff_exists.mp (h.built _ _ hlook)
    have hat : e.builtAt d p.key = some q := by simp [builtAt, hlook, hq]
    refine ⟨h.append (by simp),fun key => ?_,(replayCommandList d e.cmds).display.pipelines,?_⟩
    · rw [show (e.emit (.bindPipeline id)).builtAt d key = e.builtAt d key from
        congrFun (builtAt_append (by simp) e) key]
      split_ifs with heq
      · rw [heq, hat, Option.getD_some]
      · rfl
    · simp [Exec.emit, replay_append, Replay.run, Replay.step, Replay.bind, Binds.accept,
        Display.lookups, Replay.update, Replay.closes, hq, hat]
  | none =>
    dsimp only
    have hnone := h.fresh _ le_rfl
    have hat : e.builtAt d p.key = none := by simp [builtAt, hlook]
    have hreplay : replayCommandList d ((e.cmds ++ [.createPipeline e.nextPipeline p]) ++
        [.bindPipeline e.nextPipeline]) = { replayCommandList d e.cmds with
          display.pipelines :=
            Function.update (replayCommandList d e.cmds).display.pipelines e.nextPipeline (some p)
          binds.pipeline := some p } := by
      simp [replay_append, Replay.run, Replay.step, Replay.bind, Binds.accept, Display.lookups,
        Replay.update, Replay.closes, hnone]
    have hold : ∀ key id, e.pipelines.lookup key = some id → id ≠ e.nextPipeline := by
      rintro key id hid rfl
      have hbuilt := h.built key _ hid
      rw [hnone] at hbuilt
      cases hbuilt
    refine ⟨⟨fun key id hid => ?_,fun id hid => ?_⟩,fun key => ?_,
      Function.update (replayCommandList d e.cmds).display.pipelines e.nextPipeline (some p),?_⟩
    · simp only [Exec.emit] at hid ⊢
      rw [hreplay]
      rw [List.lookup_cons] at hid
      split at hid
      · cases hid
        simp
      · simpa [Function.update_of_ne (hold key id hid)] using h.built key id hid
    · simp only [Exec.emit] at hid ⊢
      rw [hreplay]
      dsimp only
      rw [Function.update_of_ne (by omega)]
      exact h.fresh id (by omega)
    · simp only [builtAt, Exec.emit, hreplay, List.lookup_cons]
      split_ifs with heq
      · simp [heq, hlook]
      · rw [beq_eq_false_iff_ne.mpr heq]
        dsimp only
        cases hid : e.pipelines.lookup key with
        | none => rfl
        | some id => simp [Function.update_of_ne (hold key id hid)]
    · rw [hat]
      exact hreplay

lemma bindPipeline_frame (e : Exec) (p : HostPipeline) :
    (e.bindPipeline p).cache = e.cache ∧ (e.bindPipeline p).renderTargets = e.renderTargets ∧
      (e.bindPipeline p).index = e.index ∧ (e.bindPipeline p).bytes = e.bytes ∧
      (e.bindPipeline p).readable = e.readable ∧ (e.bindPipeline p).shaders = e.shaders := by
  unfold Exec.bindPipeline
  cases e.pipelines.lookup p.key <;> exact ⟨rfl,rfl,rfl,rfl,rfl,rfl⟩

lemma Sim.bindPipeline (h : Sim d l s e e') {p : HostPipeline}
    (hp : ∀ q, e.builtAt d p.key = none → s.pipeline p.key = some q → p = q) :
    Sim d .piped s (e.bindPipeline p) (e'.bindPipeline p) := by
  obtain ⟨hcache,hrts,hindex,hbytes,hreadable,hshaders⟩ := e.bindPipeline_frame p
  obtain ⟨hcache',hrts',hindex',hbytes',hreadable',hshaders'⟩ := e'.bindPipeline_frame p
  obtain ⟨hminted,hbuilt,f,hreplay⟩ := bindPipeline_replay h.minted p
  obtain ⟨hminted',hbuilt',f',hreplay'⟩ := bindPipeline_replay h.minted' p
  have hbound : (e'.builtAt d p.key).getD p = (e.builtAt d p.key).getD p := by
    rw [h.pipelines]
    cases hat : e.builtAt d p.key with
    | some q => rfl
    | none =>
      cases hstock : s.pipeline p.key with
      | none => rfl
      | some q => simp [hp q hat hstock]
  refine ⟨?_,?_,?_,?_,?_,?_,?_,fun key => ?_,?_,hminted,hminted'⟩
  · rw [hcache, hcache', h.cache]
  · rw [hrts, hrts', h.renderTargets]
  · rw [hindex, hindex', h.index]
  · rw [hbytes, hbytes', h.bytes]
  · rw [hreadable, hreadable', h.readable]
  · rw [hshaders, hshaders']
    exact h.shaders
  · rw [hshaders']
    exact h.kept
  · rw [hbuilt, hbuilt', hbound]
    split_ifs
    · rfl
    · exact h.pipelines key
  · rw [hreplay, hreplay', hbound]
    refine ⟨h.replay.live,h.replay.retired,h.replay.passes,?_⟩
    have hseen := h.replay.bare.binds
    simp only [Binds.seen, Binds.mk.injEq] at hseen ⊢
    tauto

/-- A draw that sets both rectangles agrees on all binds. -/
lemma Sim.rects (h : Sim d .piped s e e') (v : ViewportRect) (r : ScissorRect) :
    Sim d .full s ((e.emit (.setViewport v)).emit (.setScissor r))
      ((e'.emit (.setViewport v)).emit (.setScissor r)) := by
  have hboth := (h.emit (.setViewport v) rfl).emit (.setScissor r) rfl
  refine { hboth with replay := { hboth.replay with binds := ?_ } }
  have hseen := h.replay.binds
  simp only [Exec.emit, replay_append]
  simp_all [Replay.run, Replay.step, Replay.bind, Binds.accept, Binds.seen]

lemma Sim.read (h : Sim d l s e e') : e.read = e'.read := by
  funext addr size
  simp [Exec.read, h.bytes, h.readable]

lemma Sim.fetch (h : Sim d l s e e') (now : ℕ) (key : ResourceKey) :
    Option.Rel (Tied d l s) (e.fetch now key) (e'.fetch now key) := by
  simp only [Exec.fetch, ← h.cache, ← h.read]
  exact rel_map (rel_of_eq rfl fun _ => rfl) fun a b hab => hab ▸ h.take _

lemma Sim.fetchTexture (h : Sim d l s e e') (now : ℕ) (key : ResourceKey) (surface : SurfaceLayout)
    (format : TextureFormat) : Option.Rel (Tied d l s) (e.fetchTexture T now key surface format)
      (e'.fetchTexture T now key surface format) := by
  simp only [Exec.fetchTexture, ← h.cache, ← h.read]
  exact rel_map (rel_of_eq rfl fun _ => rfl) fun a b hab => hab ▸ h.take _

lemma Sim.fetchRenderTarget (h : Sim d l s e e') (base size : ℕ) (target : TargetDesc) :
    Option.Rel (Tied d l s) (e.fetchRenderTarget base size target)
      (e'.fetchRenderTarget base size target) := by
  simp only [Exec.fetchRenderTarget, ← h.cache]
  exact rel_map (rel_of_eq rfl fun _ => rfl) fun a b hab => hab ▸ h.take _

lemma Sim.fetchSampler (h : Sim d l s e e') (desc : SamplerDesc) :
    Option.Rel (Tied d l s) (e.fetchSampler desc) (e'.fetchSampler desc) := by
  simp only [Exec.fetchSampler, ← h.cache]
  exact rel_map (rel_of_eq rfl fun _ => rfl) fun a b hab => hab ▸ h.take _

lemma Sim.fetchWhiteDummy (h : Sim d l s e e') :
    Option.Rel (Tied d l s) e.fetchWhiteDummy e'.fetchWhiteDummy := by
  simp only [Exec.fetchWhiteDummy, ← h.cache]
  exact rel_map (rel_of_eq rfl fun _ => rfl) fun a b hab => hab ▸ h.take _

lemma Sim.registerRenderTarget (h : Sim d l s e e') (target : TargetDesc) :
    Option.Rel (Sim d l s) (e.registerRenderTarget target) (e'.registerRenderTarget target) := by
  unfold Exec.registerRenderTarget
  cases target.kind with
  | videoout => exact .some h
  | offscreen base size =>
    refine rel_map (h.fetchRenderTarget base size target) ?_
    rintro _ _ ⟨id,hsim⟩
    exact hsim.emit _ rfl

lemma Sim.fetchImage (h : Sim d l s e e') (now : ℕ) (src : TextureSource) :
    Option.Rel (Tied d l s) (e.fetchImage T now src) (e'.fetchImage T now src) := by
  cases src with
  | renderTarget rt t => exact h.fetchRenderTarget rt.base rt.size rt.desc
  | plain t =>
    simp only [Exec.fetchImage, ← h.read]
    split_ifs
    · exact h.fetchWhiteDummy
    · exact h.fetchTexture _ _ _ _

lemma Sim.bindTexture (h : Sim d l s e e') (now : ℕ) (b : SamplerBinding × TextureSource) :
    Option.Rel (Sim d l s) (e.bindTexture T now b) (e'.bindTexture T now b) := by
  refine rel_bind (h.fetchImage now b.2) ?_
  rintro _ _ ⟨imageId,himage⟩
  refine rel_map (himage.fetchSampler b.2.sampler) ?_
  rintro _ _ ⟨samplerId,hsampler⟩
  exact hsampler.emit _ rfl

lemma Sim.bindConst (h : Sim d l s e e') (now : ℕ) (c : ConstBufferBinding × BufferRange) :
    Option.Rel (Sim d l s) (e.bindConst now c) (e'.bindConst now c) := by
  refine rel_map (h.fetch now _) ?_
  rintro _ _ ⟨id,hsim⟩
  exact hsim.emit _ rfl

lemma Sim.bindStorage (h : Sim d l s e e') (now : ℕ) (b : ℕ × BufferBinding × BufferRange) :
    Option.Rel (Sim d l s) (e.bindStorage now b) (e'.bindStorage now b) := by
  refine rel_map (h.fetch now _) ?_
  rintro _ _ ⟨id,hsim⟩
  exact hsim.emit _ rfl

lemma Sim.bindVertex (h : Sim d l s e e') (now : ℕ) (b : ℕ × BufferRange) :
    Option.Rel (Sim d l s) (e.bindVertex now b) (e'.bindVertex now b) := by
  refine rel_map (h.fetch now _) ?_
  rintro _ _ ⟨id,hsim⟩
  exact hsim.emit _ rfl

lemma Sim.bindAll {α : Type} {bind : Exec → α → Option Exec}
    (hbind : ∀ e e' a, Sim d l s e e' → Option.Rel (Sim d l s) (bind e a) (bind e' a)) (as : List α)
    (h : Sim d l s e e') : Option.Rel (Sim d l s) (bindAll bind e as) (bindAll bind e' as) := by
  induction as generalizing e e' with
  | nil => exact .some h
  | cons a as ih => exact rel_bind (hbind e e' a h) fun x y hxy => ih hxy

/-- A setup ended in the same way on both sides; a draw that is ready agrees on all binds. -/
inductive Ended (d : Display) (l : Agreement) (s : Stock) : Exec × Bool → Exec × Bool → Prop
  | ready {e e' : Exec} : Sim d l s e e' → Ended d l s (e,true) (e',true)
  | givenUp {e e' : Exec} : Sim d .bare s e e' → Ended d l s (e,false) (e',false)

lemma Sim.bindBuffers (h : Sim d l s e e') (i : DrawInputs) (vs : HostShader) :
    Option.Rel (Ended d l s) (e.bindBuffers i vs) (e'.bindBuffers i vs) := by
  unfold Exec.bindBuffers
  split_ifs
  · exact .some (.givenUp h.bare)
  · exact rel_map (h.bindAll (fun _ _ a ha => ha.bindStorage i.now a) _) fun _ _ => .ready
  · exact rel_map (h.bindAll (fun _ _ a ha => ha.bindVertex i.now a) _) fun _ _ => .ready

/-- An update that the replay and the shaders have no part in. -/
lemma Sim.update (h : Sim d l s e e') {x x' : Exec} (hcache : x.cache = x'.cache)
    (hrts : x.renderTargets = x'.renderTargets) (hindex : x.index = x'.index)
    (hbytes : x.bytes = x'.bytes) (hreadable : x.readable = x'.readable)
    (hx : x.shaders = e.shaders ∧ x.pipelines = e.pipelines ∧ x.nextPipeline = e.nextPipeline ∧
      x.cmds = e.cmds)
    (hx' : x'.shaders = e'.shaders ∧ x'.pipelines = e'.pipelines ∧
      x'.nextPipeline = e'.nextPipeline ∧ x'.cmds = e'.cmds) : Sim d l s x x' := by
  obtain ⟨hs,hp,hn,hc⟩ := hx
  obtain ⟨hs',hp',hn',hc'⟩ := hx'
  refine ⟨hcache,hrts,hindex,hbytes,hreadable,?_,?_,?_,?_,?_,?_⟩
  · rw [hs, hs']
    exact h.shaders
  · rw [hs']
    exact h.kept
  · unfold builtAt
    rw [hp, hp', hc, hc']
    exact h.pipelines
  · rw [hc, hc']
    exact h.replay
  · refine ⟨?_,?_⟩ <;> rw [hc]
    · rw [hp]
      exact h.minted.built
    · rw [hn]
      exact h.minted.fresh
  · refine ⟨?_,?_⟩ <;> rw [hc']
    · rw [hp']
      exact h.minted'.built
    · rw [hn']
      exact h.minted'.fresh

lemma Sim.commitTarget (h : Sim d l s e e') (target : TargetDesc) :
    Sim d l s (e.commitTarget target) (e'.commitTarget target) := by
  unfold Exec.commitTarget
  cases target.kind with
  | videoout => exact h
  | offscreen base size =>
    exact h.update h.cache (by simp [h.renderTargets]) h.index h.bytes h.readable ⟨rfl,rfl,rfl,rfl⟩
      ⟨rfl,rfl,rfl,rfl⟩

lemma Sim.bindDraw (h : Sim d l s e e') {i : DrawInputs} {vs ps : HostShader} {draw : DrawState}
    {r : Resolved} (hp : ∀ q, e.builtAt d (hostPipeline i.bound vs ps draw r).key = none →
      s.pipeline (hostPipeline i.bound vs ps draw r).key = some q →
        hostPipeline i.bound vs ps draw r = q) :
    Option.Rel (Ended d .full s) (e.bindDraw T i vs ps draw r) (e'.bindDraw T i vs ps draw r) := by
  simp only [Exec.bindDraw, Option.bind_eq_bind, Option.pure_def]
  have hpipe := h.bindPipeline hp
  refine rel_bind (hpipe.bindAll (fun _ _ a ha => ha.bindTexture i.now a) _) fun x y hxy => ?_
  refine rel_bind (hxy.bindAll (fun _ _ a ha => ha.bindConst i.now a) _) fun x y hxy => ?_
  refine rel_bind (hxy.bindBuffers i vs) fun x y hxy => ?_
  cases hxy with
  | ready hsim => exact .some (.ready ((hsim.commitTarget draw.target).rects _ _))
  | givenUp hsim => exact .some (.givenUp hsim)

lemma resolveShaders_spec (e : Exec) (b : BoundShaders) :
    (e.resolveShaders T b).1 = T.pairHost (served e.shaders) (T.texts e.read b) ∧
      served (e.resolveShaders T b).2.shaders = T.pairLearn (served e.shaders) (T.texts e.read b) :=
  T.resolvePair_spec e.provider b

/-- Both get the same shaders. -/
lemma Sim.resolveShaders (h : Sim d l s e e') {i : DrawInputs} (hi : Suits T d s e i) :
    (e'.resolveShaders T i.bound).1 = (e.resolveShaders T i.bound).1 ∧
      Sim d l s (e.resolveShaders T i.bound).2 (e'.resolveShaders T i.bound).2 := by
  obtain ⟨hpair,hserved⟩ := e.resolveShaders_spec (T := T) i.bound
  obtain ⟨hpair',hserved'⟩ := e'.resolveShaders_spec (T := T) i.bound
  rw [← h.read] at hpair' hserved'
  obtain ⟨hsame,hlearnt⟩ := Toolchain.pairLearn_beyond h.shaders hi.shader
  refine ⟨by rw [hpair, hpair', hsame],h.cache,h.renderTargets,h.index,h.bytes,h.readable,
    fun key => ?_,fun key host hkept => ?_,h.pipelines,h.replay,⟨h.minted.built,h.minted.fresh⟩,
    ⟨h.minted'.built,h.minted'.fresh⟩⟩
  · rw [hserved, hserved', hlearnt]
  · rw [hserved']
    exact Toolchain.learn_held (Toolchain.learn_held (h.kept key host hkept) _) _

lemma registerRenderTarget_builtAt {target : TargetDesc} (h : e.registerRenderTarget target = some e') :
    e'.builtAt d = e.builtAt d := by
  unfold Exec.registerRenderTarget at h
  split at h
  · cases h
    rfl
  · obtain ⟨⟨id,e₁⟩,hget,rfl⟩ := Option.map_eq_some_iff.mp h
    obtain ⟨r,-,heq⟩ := Option.map_eq_some_iff.mp hget
    obtain rfl := congrArg Prod.snd heq
    refine (builtAt_append (by simp) _).trans (builtAt_append ?_ e)
    rintro cmd hcmd id p rfl
    obtain ⟨c,-,hc⟩ := List.mem_map.mp hcmd
    cases hc

lemma Sim.setupDraw (h : Sim d l s e e') {i : DrawInputs} (hi : Suits T d s e i) :
    Option.Rel (Ended d .full s) (e.setupDraw T i) (e'.setupDraw T i) := by
  obtain ⟨hsame,h₀⟩ := h.resolveShaders hi
  have hwants : ∀ vs ps draw r, (e.resolveShaders T i.bound).1 = some (vs,ps) →
      i.drawState = some draw → i.resolve e.renderTargets vs ps = some r →
        e.wants T i = some (hostPipeline i.bound vs ps draw r) := by
    intro vs ps draw r hpair hdraw hr
    simp [wants, hpair, hdraw, hr]
  simp only [Exec.setupDraw, hsame]
  cases hpair : (e.resolveShaders T i.bound).1 with
  | none => exact .some (.givenUp h₀.bare)
  | some pair =>
    cases hdraw : i.drawState with
    | none => exact .some (.givenUp h₀.bare)
    | some draw =>
      refine rel_bind_mem (h₀.registerRenderTarget draw.target) fun x y hx hxy => ?_
      rw [← hxy.renderTargets]
      have hrts := registerRenderTarget_renderTargets hx
      have hbuilt := registerRenderTarget_builtAt (d := d) hx
      cases hr : i.resolve x.renderTargets pair.1 pair.2 with
      | none => exact .some (.givenUp hxy.bare)
      | some r =>
        refine hxy.bindDraw fun q hnone hstock => hi.pipeline _ q ?_ ?_ hstock
        · exact hwants _ _ draw r hpair hdraw (hrts ▸ hr)
        · rw [hbuilt] at hnone
          exact hnone

lemma Sim.drawIndexed (h : Sim d .full s e e') (now base count : ℕ) (t : IndexType) :
    Option.Rel (Sim d .bare s) (e.drawIndexed now base count t) (e'.drawIndexed now base count t) := by
  unfold Exec.drawIndexed
  split_ifs
  · exact .some h.bare
  · refine rel_map (h.fetch now _) ?_
    rintro _ _ ⟨id,hsim⟩
    exact (hsim.draw _ rfl).bare

lemma Sim.dispatchIndexed (h : Sim d l s e e') {i : DrawInputs} (hi : Suits T d s e i)
    (base count : ℕ) : Option.Rel (Sim d .bare s) (e.dispatchIndexed T i base count)
      (e'.dispatchIndexed T i base count) := by
  rw [Exec.dispatchIndexed, Exec.dispatchIndexed, ← h.index]
  refine rel_bind (h.setupDraw hi) fun x y hxy => ?_
  cases hxy with
  | ready hsim => exact hsim.drawIndexed i.now base count e.index.indexType
  | givenUp hsim => exact .some hsim

lemma Sim.dmaData (h : Sim d l s e e') (src dst len : ℕ) :
    Sim d l s (e.dmaData src dst len) (e'.dmaData src dst len) := by
  unfold Exec.dmaData
  rw [← h.read, ← h.readable, ← h.bytes]
  by_cases hnull : src = 0 ∨ dst = 0 ∨ len = 0
  · simpa only [if_pos hnull] using h
  simp only [if_neg hnull]
  cases e.read src len with
  | none => exact h
  | some data =>
    dsimp only
    split_ifs
    · exact h.update h.cache h.renderTargets h.index rfl rfl ⟨rfl,rfl,rfl,rfl⟩ ⟨rfl,rfl,rfl,rfl⟩
    · exact h

/-- One packet keeps two executors alike, if its draw suits the stock. -/
lemma Sim.handle (h : Sim d l s e e') {p : Packet} (hp : ∀ i, p.inputs = some i → Suits T d s e i) :
    Option.Rel (Sim d .bare s) (e.handle T p) (e'.handle T p) := by
  cases p with
  | drawIndexAuto i count =>
    refine rel_map (h.setupDraw (hp i rfl)) fun x y hxy => ?_
    cases hxy with
    | ready hsim => exact (hsim.draw _ rfl).bare
    | givenUp hsim => exact hsim
  | drawIndex2 i body | drawIndexOffset2 i body =>
    cases body with
    | none => exact .some h.bare
    | some b =>
      simp only [Exec.handle, ← h.index]
      exact h.dispatchIndexed (hp i rfl) _ _
  | indexType t | indexBase base | indexBufferSize maxSize =>
    exact .some (h.bare.update h.cache h.renderTargets (by simp [h.index]) h.bytes h.readable
      ⟨rfl,rfl,rfl,rfl⟩ ⟨rfl,rfl,rfl,rfl⟩)
  | dmaData src dst len => exact .some (h.dmaData src dst len).bare
  | acquireMem base size =>
    simp only [Exec.handle]
    split_ifs
    · exact .some h.bare
    · exact .some (h.bare.update (by simp [h.cache]) h.renderTargets h.index h.bytes h.readable
        ⟨rfl,rfl,rfl,rfl⟩ ⟨rfl,rfl,rfl,rfl⟩)

/-- The same packets keep two executors alike, if every draw suits the stock. -/
lemma Sim.walk (h : Sim d l s e e') {ok : Exec → DrawInputs → Prop}
    (hok : ∀ {l x x' i}, Sim d l s x x' → ok x i → Suits T d s x i) {ps : List Packet}
    (hps : e.WalkAll T ok ps) : Option.Rel (Sim d .bare s) (e.walk T ps) (e'.walk T ps) := by
  induction ps generalizing l e e' with
  | nil => exact .some h.bare
  | cons p ps ih =>
    exact rel_bind_mem (h.handle fun i hi => hok h (hps.1 i hi)) fun x y hx hxy => ih hxy (hps.2 x hx)

/-- With nothing in the stock, an executor is like itself. -/
lemma Minted.sim (h : e.Minted d) : Sim d .full .none e e where
  cache := rfl
  renderTargets := rfl
  index := rfl
  bytes := rfl
  readable := rfl
  shaders key := by simp [Stock.none]
  kept key host hkept := (Option.some_ne_none _ hkept.symm).elim
  pipelines key := by simp [Stock.none]
  replay := ⟨rfl,rfl,rfl,rfl⟩
  minted := h
  minted' := h

lemma Minted.walk (h : e.Minted d) {ps : List Packet} (hwalk : e.walk T ps = some e') :
    e'.Minted d := by
  have hrel : Option.Rel (Sim d .bare .none) (e.walk T ps) (e.walk T ps) :=
    h.sim.walk (fun _ hi => hi) (.of_forall (suits_none T d) ps)
  rw [hwalk, Option.rel_some_some] at hrel
  exact hrel.minted

end Exec

lemma Display.applyAll_pipelines (d : Display) (cmds : List ResourceCmd) :
    (d.applyAll cmds).pipelines = d.pipelines := by
  induction cmds generalizing d with
  | nil => rfl
  | cons cmd cmds ih => exact ih (d.apply cmd)

/-- Between two lists every minted pipeline is built. -/
lemma Session.minted {e : Exec} {d : Display} {T : Toolchain}
    (h : Session T e d) : e.Minted d := by
  have hcongr : ∀ {x y : Exec} {c c' : Display}, x.Minted c → y.pipelines = x.pipelines →
      y.nextPipeline = x.nextPipeline → (replayCommandList c' y.cmds).display.pipelines =
        (replayCommandList c x.cmds).display.pipelines → y.Minted c' := by
    intro x y c c' hx hpipes hnext hsame
    refine ⟨fun key id hid => ?_,fun id hid => ?_⟩ <;> rw [hsame]
    · exact hx.built key id (hpipes ▸ hid)
    · exact hx.fresh id (hnext ▸ hid)
  induction h with
  | boot index bytes readable => exact ⟨fun _ _ hid => (Option.some_ne_none _ hid.symm).elim,fun _ _ => rfl⟩
  | submit packets _ hwalk ih => exact hcongr (ih.walk hwalk) rfl rfl rfl
  | guest bytes readable _ ih => exact hcongr ih rfl rfl rfl
  | dirty ranges _ ih => exact hcongr ih rfl rfl rfl
  | free addr size hsession ih =>
    refine hcongr ih rfl rfl ?_
    simp [hsession.synced.2, replayCommandList, Replay.run, Replay.start, Display.retire,
      Display.applyAll_pipelines]
  | rehash _ _ ih => exact hcongr ih rfl rfl rfl

end Unemups4.Gnm
