import Unemups4.StreamRun

/-! A walk never looks at the commands before it, and at the index state only where an indexed
draw reads it: started over other commands and another index state, it appends the same
commands and does the same to everything else. -/
namespace Unemups4.Gnm
open Gcn

namespace Exec

/-- The executor with other commands before its own, and another index state. -/
def after (pre : List BackendCmd) (i : IndexState) (e : Exec) : Exec :=
  { e with cmds := pre ++ e.cmds, index := i }

variable (pre : List BackendCmd) (i : IndexState) (e : Exec)
  {T : Toolchain}

/-- A named result with the executor put after the same. -/
def afterId (r : ℕ × Exec) : ℕ × Exec := (r.1,r.2.after pre i)

def afterFlag (r : Exec × Bool) : Exec × Bool := (r.1.after pre i,r.2)

lemma after_emit (cmd : BackendCmd) : (e.after pre i).emit cmd = (e.emit cmd).after pre i := by
  simp [after, emit]

lemma after_take (r : ℕ × ResourceCache × List ResourceCmd) :
    (e.after pre i).take r = afterId pre i (e.take r) := by
  simp [after, afterId, take]

lemma after_fetch (now : ℕ) (key : ResourceKey) :
    (e.after pre i).fetch now key = (e.fetch now key).map (afterId pre i) := by
  simp only [fetch, Option.map_map, after_take, Function.comp_def]
  rfl

lemma after_fetchTexture (now : ℕ) (key : ResourceKey) (surface : SurfaceLayout)
    (format : TextureFormat) : (e.after pre i).fetchTexture T now key surface format =
      (e.fetchTexture T now key surface format).map (afterId pre i) := by
  simp only [fetchTexture, Option.map_map, after_take, Function.comp_def]
  rfl

lemma after_fetchRenderTarget (base size : ℕ) (target : TargetDesc) :
    (e.after pre i).fetchRenderTarget base size target =
      (e.fetchRenderTarget base size target).map (afterId pre i) := by
  have htake : (e.after pre i).take = afterId pre i ∘ e.take := funext (after_take pre i e)
  simp only [fetchRenderTarget, Option.map_map, htake]
  rfl

lemma after_fetchSampler (desc : SamplerDesc) :
    (e.after pre i).fetchSampler desc = (e.fetchSampler desc).map (afterId pre i) := by
  have htake : (e.after pre i).take = afterId pre i ∘ e.take := funext (after_take pre i e)
  simp only [fetchSampler, Option.map_map, htake]
  rfl

lemma after_fetchWhiteDummy :
    (e.after pre i).fetchWhiteDummy = e.fetchWhiteDummy.map (afterId pre i) := by
  have htake : (e.after pre i).take = afterId pre i ∘ e.take := funext (after_take pre i e)
  simp only [fetchWhiteDummy, Option.map_map, htake]
  rfl

lemma after_registerRenderTarget (target : TargetDesc) :
    (e.after pre i).registerRenderTarget target = (e.registerRenderTarget target).map (after pre i) := by
  unfold registerRenderTarget
  cases target.kind with
  | videoout => rfl
  | offscreen base size =>
    simp only [after_fetchRenderTarget, Option.map_map, Function.comp_def, afterId, after_emit]

lemma after_bindPipeline (p : HostPipeline) :
    (e.after pre i).bindPipeline p = (e.bindPipeline p).after pre i := by
  unfold bindPipeline
  have hsame : (e.after pre i).pipelines = e.pipelines := rfl
  rw [hsame]
  cases e.pipelines.lookup p.key with
  | some id => exact after_emit pre i e _
  | none => simp [after, emit]

lemma after_fetchImage (now : ℕ) (src : TextureSource) :
    (e.after pre i).fetchImage T now src = (e.fetchImage T now src).map (afterId pre i) := by
  cases src with
  | renderTarget rt t => exact after_fetchRenderTarget pre i e _ _ _
  | plain t =>
    have hread : (e.after pre i).read = e.read := rfl
    simp only [fetchImage, hread]
    split_ifs
    · exact after_fetchWhiteDummy pre i e
    · exact after_fetchTexture pre i e _ _ _ _

lemma after_bindTexture (now : ℕ) (b : SamplerBinding × TextureSource) :
    (e.after pre i).bindTexture T now b = (e.bindTexture T now b).map (after pre i) := by
  unfold bindTexture
  rw [after_fetchImage, Option.bind_map, Option.map_bind]
  refine Option.bind_congr fun r _ => ?_
  simp only [Function.comp_apply, afterId, after_fetchSampler, Option.map_map, Function.comp_def,
    after_emit]

lemma after_bindConst (now : ℕ) (c : ConstBufferBinding × BufferRange) :
    (e.after pre i).bindConst now c = (e.bindConst now c).map (after pre i) := by
  simp only [bindConst, after_fetch, Option.map_map, Function.comp_def, afterId, after_emit]

lemma after_bindStorage (now : ℕ) (b : ℕ × BufferBinding × BufferRange) :
    (e.after pre i).bindStorage now b = (e.bindStorage now b).map (after pre i) := by
  simp only [bindStorage, after_fetch, Option.map_map, Function.comp_def, afterId, after_emit]

lemma after_bindVertex (now : ℕ) (b : ℕ × BufferRange) :
    (e.after pre i).bindVertex now b = (e.bindVertex now b).map (after pre i) := by
  simp only [bindVertex, after_fetch, Option.map_map, Function.comp_def, afterId, after_emit]

lemma after_bindAll {α : Type} {bind : Exec → α → Option Exec}
    (hbind : ∀ e a, bind (e.after pre i) a = (bind e a).map (after pre i)) (as : List α) :
    bindAll bind (e.after pre i) as = (bindAll bind e as).map (after pre i) := by
  induction as generalizing e with
  | nil => rfl
  | cons a as ih =>
    rw [bindAll, bindAll, hbind, Option.bind_map, Option.map_bind]
    exact Option.bind_congr fun r _ => ih r

lemma after_bindBuffers (d : DrawInputs) (vs : HostShader) :
    (e.after pre i).bindBuffers d vs = (e.bindBuffers d vs).map (afterFlag pre i) := by
  unfold bindBuffers
  split_ifs
  · rfl
  · dsimp only
    rw [after_bindAll pre i e fun e a => after_bindStorage pre i e d.now a]
    simp only [Option.map_map]
    rfl
  · dsimp only
    rw [after_bindAll pre i e fun e a => after_bindVertex pre i e d.now a]
    simp only [Option.map_map]
    rfl

lemma after_commitTarget (target : TargetDesc) :
    (e.after pre i).commitTarget target = (e.commitTarget target).after pre i := by
  unfold commitTarget
  cases target.kind <;> rfl

lemma after_bindDraw (d : DrawInputs) (vs ps : HostShader) (draw : DrawState) (r : Resolved) :
    (e.after pre i).bindDraw T d vs ps draw r =
      (e.bindDraw T d vs ps draw r).map (afterFlag pre i) := by
  unfold bindDraw
  dsimp only [bind]
  rw [after_bindPipeline, after_bindAll pre i _ fun e a => after_bindTexture pre i e d.now a,
    Option.bind_map, Option.map_bind]
  refine Option.bind_congr fun e _ => ?_
  simp only [Function.comp_apply]
  rw [after_bindAll pre i e fun e a => after_bindConst pre i e d.now a, Option.bind_map,
    Option.map_bind]
  refine Option.bind_congr fun e _ => ?_
  simp only [Function.comp_apply]
  rw [after_bindBuffers, Option.bind_map, Option.map_bind]
  refine Option.bind_congr fun b _ => ?_
  obtain ⟨e,bound⟩ := b
  cases bound with
  | false => rfl
  | true =>
    simp only [Function.comp_apply, afterFlag, if_true, after_commitTarget, after_emit]
    rfl

lemma after_resolveShaders (b : BoundShaders) : (e.after pre i).resolveShaders T b =
    ((e.resolveShaders T b).1,(e.resolveShaders T b).2.after pre i) := rfl

lemma after_setupDraw (d : DrawInputs) :
    (e.after pre i).setupDraw T d = (e.setupDraw T d).map (afterFlag pre i) := by
  simp only [setupDraw, after_resolveShaders]
  cases (e.resolveShaders T d.bound).1 with
  | none => rfl
  | some shaders =>
    cases d.drawState with
    | none => rfl
    | some draw =>
      dsimp only
      rw [after_registerRenderTarget, Option.bind_map, Option.map_bind]
      refine Option.bind_congr fun e _ => ?_
      have hsame : (e.after pre i).renderTargets = e.renderTargets := rfl
      simp only [Function.comp_apply, hsame]
      cases d.resolve e.renderTargets shaders.1 shaders.2 with
      | none => rfl
      | some r => exact after_bindDraw pre i e d _ _ draw r

lemma after_drawIndexed (now base count : ℕ) (t : IndexType) :
    (e.after pre i).drawIndexed now base count t = (e.drawIndexed now base count t).map (after pre i) := by
  unfold drawIndexed
  split_ifs
  · rfl
  · simp only [after_fetch, Option.map_map, Function.comp_def, afterId, after_emit]

end Exec

/-- The index state after a packet. -/
def IndexState.after (i : IndexState) : Packet → IndexState
  | .indexType t => { i with indexType := t }
  | .indexBase base => { i with base := base }
  | .indexBufferSize maxSize => { i with maxSize := maxSize }
  | _ => i

/-- The fields of the index state that a packet reads are the same in both. -/
def Packet.ReadsAlike (i j : IndexState) : Packet → Prop
  | .drawIndex2 _ (some (_,packetBase,_)) =>
      i.indexType = j.indexType ∧ (packetBase = 0 → i.base = j.base)
  | .drawIndexOffset2 _ (some _) => i.base = j.base ∧ (i.base ≠ 0 → i = j)
  | _ => True

namespace Exec

variable (pre : List BackendCmd) (i : IndexState) (e : Exec)
  {T : Toolchain}

/-- Two ways to name the index range of a draw that come to the same. -/
lemma after_dispatchIndexed {d : DrawInputs} {base count base' count' : ℕ}
    (h : base = 0 ∧ base' = 0 ∨
      base' = base ∧ count' = count ∧ i.indexType = e.index.indexType) :
    (e.after pre i).dispatchIndexed T d base' count' =
      (e.dispatchIndexed T d base count).map (after pre i) := by
  unfold dispatchIndexed
  rw [after_setupDraw, Option.bind_map, Option.map_bind]
  refine Option.bind_congr fun r _ => ?_
  obtain ⟨e',ready⟩ := r
  cases ready with
  | false => rfl
  | true =>
    have htype : (e.after pre i).index.indexType = i.indexType := rfl
    simp only [Function.comp_apply, afterFlag, if_true, after_drawIndexed, htype]
    rcases h with ⟨rfl,rfl⟩ | ⟨rfl,rfl,hi⟩
    · simp [drawIndexed]
    · rw [hi]

/-- One packet after other commands and over another index state. -/
lemma after_handle {p : Packet} (h : p.ReadsAlike e.index i) :
    (e.after pre i).handle T p = (e.handle T p).map (after pre (i.after p)) := by
  cases p with
  | drawIndexAuto d count =>
    simp only [handle, after_setupDraw, Option.map_map]
    refine congrArg (fun f => (e.setupDraw T d).map f) (funext fun r => ?_)
    obtain ⟨e',ready⟩ := r
    cases ready with
    | false => rfl
    | true => exact after_emit pre i e' _
  | drawIndex2 d body =>
    cases body with
    | none => rfl
    | some b =>
      obtain ⟨maxSize,packetBase,packetCount⟩ := b
      obtain ⟨htype,hbase⟩ := h
      refine after_dispatchIndexed pre i e (.inr ⟨?_,rfl,htype.symm⟩)
      have hindex : (e.after pre i).index.base = i.base := rfl
      rw [hindex]
      split_ifs with hown
      · rfl
      · exact (hbase (not_not.mp hown)).symm
  | drawIndexOffset2 d body =>
    cases body with
    | none => rfl
    | some b =>
      obtain ⟨offset,packetCount⟩ := b
      obtain ⟨hbase,hsame⟩ := h
      have hindex : (e.after pre i).index = i := rfl
      by_cases hzero : e.index.base = 0
      · refine after_dispatchIndexed pre i e (.inl ⟨if_pos hzero,?_⟩)
        rw [hindex, ← hbase, if_pos hzero]
      · have heq : i = e.index := (hsame hzero).symm
        refine after_dispatchIndexed pre i e (.inr ⟨?_,?_,by rw [heq]⟩) <;> rw [hindex, heq]
  | indexType t => rfl
  | indexBase base => rfl
  | indexBufferSize maxSize => rfl
  | dmaData src dst len =>
    simp only [handle, Option.map_some, Option.some.injEq, dmaData]
    have hread : (e.after pre i).read = e.read := rfl
    have hreadable : (e.after pre i).readable = e.readable := rfl
    rw [hread, hreadable]
    cases e.read src len with
    | none => split_ifs <;> rfl
    | some data => split_ifs <;> rfl
  | acquireMem base size =>
    simp only [handle, Option.map_some, Option.some.injEq]
    split_ifs <;> rfl

lemma readsAlike_refl (i : IndexState) (p : Packet) : p.ReadsAlike i i := by
  cases p with
  | drawIndex2 d body =>
    cases body with
    | none => trivial
    | some b => exact ⟨rfl,fun _ => rfl⟩
  | drawIndexOffset2 d body =>
    cases body with
    | none => trivial
    | some b => exact ⟨rfl,fun _ => rfl⟩
  | _ => trivial

lemma handle_index {e e' : Exec} {p : Packet} (h : e.handle T p = some e') :
    e'.index = e.index.after p := by
  have hself : e.after [] e.index = e := by simp [after]
  have hafter : (e.after [] e.index).handle T p = _ :=
    after_handle [] e.index e (readsAlike_refl e.index p)
  rw [hself, h] at hafter
  exact congrArg Exec.index (Option.some.inj hafter)

end Exec

/-- The index state after a packet of the stream. -/
def IndexState.step (i : IndexState) : Pm4Packet → IndexState
  | .type3 opcode _ body =>
      if opcode = itIndexType then { i with indexType := indexTypeOf body }
      else if opcode = itIndexBase then { i with base := qword (body.getD 0 0) (body.getD 1 0) }
      else if opcode = itIndexBufferSize then { i with maxSize := (body.getD 0 0).toNat }
      else i
  | _ => i

/-- What an indexed draw of the stream reads of the index state is the same in both: the
element type, the base if it has none of its own, and all of it for an offset into a buffer
that is bound. -/
def Pm4Packet.ReadsAlike (i j : IndexState) : Pm4Packet → Prop
  | .type3 opcode _ body =>
      (opcode = itDrawIndex2 → ∀ b, drawIndex2Body body = some b →
        i.indexType = j.indexType ∧ (b.2.1 = 0 → i.base = j.base)) ∧
      (opcode = itDrawIndexOffset2 → drawIndexOffsetBody body ≠ none →
        i.base = j.base ∧ (i.base ≠ 0 → i = j))
  | _ => True

/-- Every indexed draw of a stream reads the same from two index states at its start. -/
def IndexAgree (i j : IndexState) : List Pm4Packet → Prop
  | [] => True
  | packet :: packets => packet.ReadsAlike i j ∧ IndexAgree (i.step packet) (j.step packet) packets

def IndexState.run (i : IndexState) (packets : List Pm4Packet) : IndexState := packets.foldl .step i

/-- A packet of the stream leaves the index state that the packet it becomes leaves, and reads
what that one reads. -/
lemma toPacket_some {s : GpuState} {d : DrawInputs} {packet : Pm4Packet} {p : Packet} {i j : IndexState}
    (h : toPacket s d packet = some p) :
    i.after p = i.step packet ∧ (packet.ReadsAlike i j → p.ReadsAlike i j) := by
  cases packet with
  | type3 opcode count body =>
    simp only [toPacket] at h
    split_ifs at h with h1 h2 h3 h4 h5 h6 h7 h8
    · cases h
      subst h1
      exact ⟨rfl,fun _ => trivial⟩
    · cases h
      subst h2
      refine ⟨rfl,fun hreads => ?_⟩
      cases hbody : drawIndex2Body body with
      | none => trivial
      | some b => exact hreads.1 rfl b hbody
    · cases h
      subst h3
      refine ⟨rfl,fun hreads => ?_⟩
      cases hbody : drawIndexOffsetBody body with
      | none => trivial
      | some b => exact hreads.2 rfl (by simp [hbody])
    · cases h
      subst h4
      exact ⟨rfl,fun _ => trivial⟩
    · cases h
      subst h5
      exact ⟨rfl,fun _ => trivial⟩
    · cases h
      subst h6
      exact ⟨rfl,fun _ => trivial⟩
    · obtain ⟨b,-,rfl⟩ := Option.map_eq_some_iff.mp h
      subst h7
      exact ⟨rfl,fun _ => trivial⟩
    · obtain ⟨b,-,rfl⟩ := Option.map_eq_some_iff.mp h
      subst h8
      exact ⟨rfl,fun _ => trivial⟩
  | type0 | type2 | truncated => cases h

lemma toPacket_none {s : GpuState} {d : DrawInputs} {packet : Pm4Packet}
    (h : toPacket s d packet = none) (i : IndexState) : i.step packet = i := by
  cases packet with
  | type3 opcode count body =>
    simp only [toPacket] at h
    split_ifs at h with h1 h2 h3 h4 h5 h6 h7 h8
    · subst h7
      rfl
    · subst h8
      rfl
    · simp [IndexState.step, h4, h5, h6]
  | type0 | type2 | truncated => rfl

namespace Gpu

def after (pre : List BackendCmd) (i : IndexState) (g : Gpu) : Gpu :=
  { g with exec := g.exec.after pre i }

variable {E : StreamEnv} (pre : List BackendCmd) (i : IndexState) (g : Gpu)

lemma after_step {packet : Pm4Packet} (h : packet.ReadsAlike g.exec.index i) :
    (g.after pre i).step E packet = (g.step E packet).map (after pre (i.step packet)) := by
  unfold step
  have hpacket : toPacket (g.after pre i).state ((g.after pre i).inputs E) packet =
      toPacket g.state (g.inputs E) packet := rfl
  rw [hpacket]
  cases htoPacket : toPacket g.state (g.inputs E) packet with
  | none =>
    have hlabel : (g.after pre i).writeLabel E packet = (g.writeLabel E packet).after pre i := by
      cases packet with
      | type3 opcode count body =>
        simp only [writeLabel]
        split_ifs <;> rfl
      | _ => rfl
    rw [toPacket_none htoPacket i, hlabel]
    rfl
  | some p =>
    have hreads := (toPacket_some (i := g.exec.index) (j := i) htoPacket).2
    have hnext : i.after p = i.step packet := (toPacket_some (j := i) htoPacket).1
    have hhandle : (g.after pre i).exec.handle E.tools p = _ :=
      Exec.after_handle pre i g.exec (hreads h)
    simp only [hhandle, Option.map_map, hnext]
    rfl

lemma step_index {g g' : Gpu} {packet : Pm4Packet} (h : g.step E packet = some g') :
    g'.exec.index = g.exec.index.step packet := by
  obtain ⟨e,he,rfl⟩ := Option.map_eq_some_iff.mp h
  cases htoPacket : toPacket g.state (g.inputs E) packet with
  | none =>
    rw [htoPacket] at he
    cases he
    rw [toPacket_none htoPacket]
    cases packet with
    | type3 opcode count body =>
      simp only [writeLabel]
      split_ifs <;> rfl
    | _ => rfl
  | some p =>
    rw [htoPacket] at he
    rw [Exec.handle_index he]
    exact (toPacket_some (j := g.exec.index) htoPacket).1

/-- A walk after other commands and over another index state. -/
theorem after_walk {packets : List Pm4Packet} (h : IndexAgree g.exec.index i packets) :
    (g.after pre i).walk E packets = (g.walk E packets).map (after pre (i.run packets)) := by
  induction packets generalizing g i with
  | nil => rfl
  | cons packet packets ih =>
    rw [walk, walk, after_step pre i g h.1, Option.bind_map, Option.map_bind]
    refine Option.bind_congr fun g' hg' => ?_
    have hrest := h.2
    rw [← step_index hg'] at hrest
    exact ih (i.step packet) g' hrest

lemma walk_append (ps qs : List Pm4Packet) :
    g.walk E (ps ++ qs) = (g.walk E ps).bind fun g => g.walk E qs := by
  induction ps generalizing g with
  | nil => rfl
  | cons packet ps ih =>
    rw [List.cons_append, walk, walk, Option.bind_assoc]
    exact Option.bind_congr fun g' _ => ih g'

end Gpu

end Unemups4.Gnm
