import Unemups4.DeferredDraw
import Unemups4.HostMirror

/-! Render targets sampled as textures. The registry of targets drawn into is keyed by guest
address; the targets themselves are entries of the cache. The log of the emitted commands says
which targets a draw was issued under. -/
namespace Unemups4.Gnm
open Gcn

namespace ResourceCache

/-- Every render target of `c` is one of `d`, under the same id. -/
def KeepsTargets (c d : ResourceCache) : Prop :=
  ∀ p ∈ c.entries, isRenderTarget p.1.layout → ∃ q ∈ d.entries, q.1 = p.1 ∧ q.2.id = p.2.id

variable {c d : ResourceCache}

lemma keepsTargets_of_subset (h : c.entries ⊆ d.entries) : c.KeepsTargets d :=
  fun p hp _ => ⟨p,h hp,rfl,rfl⟩

lemma KeepsTargets.trans {e : ResourceCache} (h : c.KeepsTargets d) (h' : d.KeepsTargets e) :
    c.KeepsTargets e := by
  intro p hp hrt
  obtain ⟨q,hq,hkey,hid⟩ := h p hp hrt
  obtain ⟨r,hr,hkey',hid'⟩ := h' q hq (hkey ▸ hrt)
  exact ⟨r,hr,hkey'.trans hkey,hid'.trans hid⟩

lemma modify_keepsTargets (c : ResourceCache) (key : ResourceKey) {f : Entry → Entry}
    (hid : ∀ e, (f e).id = e.id) : c.KeepsTargets (c.modify key f) := by
  intro p hp _
  refine ⟨_,List.mem_map_of_mem hp,?_⟩
  split_ifs
  · exact ⟨rfl,hid p.2⟩
  · exact ⟨rfl,rfl⟩

lemma markDirty_keepsTargets (c : ResourceCache) (hit : ResourceKey → Bool) :
    c.KeepsTargets (c.markDirty hit) := by
  intro p hp _
  refine ⟨_,List.mem_map_of_mem hp,?_⟩
  split_ifs <;> exact ⟨rfl,rfl⟩

/-- Only linear buffers are trimmed. -/
lemma trim_keepsTargets (c : ResourceCache) (now : ℕ) : c.KeepsTargets (c.trim now).1 := by
  intro p hp hrt
  have hkey : p.1 ∉ candidates { c with trimmedFlip := now } := by
    intro hmem
    obtain ⟨q,hq,heq⟩ := List.mem_map.mp hmem
    have hq := (List.mem_filter.mp ((List.perm_insertionSort _ _).mem_iff.mp hq)).2
    rw [← heq] at hrt
    cases hl : q.1.layout <;> simp_all [isLinearBuffer, isRenderTarget]
  refine ⟨p,?_,rfl,rfl⟩
  unfold trim
  dsimp only
  split_ifs
  · exact hp
  · exact hp
  · exact (evict_frees _ _).keeps hp hkey

lemma acquire_keepsTargets {now id : ℕ} {key : ResourceKey} {r : Recipe} {cmds : List ResourceCmd}
    {ws : List WatchOp} (h : c.acquire now key r = some (id,d,cmds,ws)) : c.KeepsTargets d := by
  unfold acquire at h
  cases hread : c.acquireRead now key r with
  | none => simp [hread] at h
  | some t =>
    obtain ⟨a,e,out⟩ := t
    simp only [hread, Option.some.injEq] at h
    obtain ⟨cmds',hreads,rfl⟩ := acquireRead_reads hread
    cases h
    refine (c.trim_keepsTargets now).trans ?_
    have htouch : (c.trim now).1.KeepsTargets ((c.trim now).1.touch key) :=
      modify_keepsTargets _ key fun _ => rfl
    cases hreads with
    | clean => exact htouch
    | unreadable => exact htouch
    | reupload => exact htouch.trans (modify_keepsTargets _ key fun _ => rfl)
    | imported | filled | unfilled => exact keepsTargets_of_subset (List.subset_cons_self _ _)

lemma acquire_entry {now id : ℕ} {key : ResourceKey} {r : Recipe} {cmds : List ResourceCmd}
    {ws : List WatchOp} (h : c.acquire now key r = some (id,d,cmds,ws)) :
    ∃ p ∈ d.entries, p.1 = key ∧ p.2.id = id := by
  unfold acquire at h
  cases hread : c.acquireRead now key r with
  | none => simp [hread] at h
  | some t =>
    obtain ⟨a,e,out⟩ := t
    simp only [hread, Option.some.injEq] at h
    obtain ⟨cmds',hreads,rfl⟩ := acquireRead_reads hread
    cases h
    obtain ⟨entry,hlook,hid⟩ := Machine.Reads.entry hreads
    exact ⟨_,lookup_mem hlook,rfl,hid⟩

/-- The target of a key is found, or made, under the id returned. -/
lemma getRenderTarget_keepsTargets {key : ResourceKey} {surface : SurfaceLayout}
    {format : ColorFormat} {id : ℕ} {cmds : List ResourceCmd}
    (h : c.getRenderTarget key surface format = some (id,d,cmds)) :
    c.KeepsTargets d ∧ ∃ p ∈ d.entries, p.1 = key ∧ p.2.id = id := by
  obtain ⟨e,hlook,rfl,rfl,rfl⟩ | ⟨-,rfl,rfl,rfl⟩ := getRenderTarget_eq_some h
  · refine ⟨c.modify_keepsTargets key fun _ => rfl,_,List.mem_map_of_mem (lookup_mem hlook),?_⟩
    simp
  · exact ⟨keepsTargets_of_subset (List.subset_cons_self _ _),_,List.mem_cons_self,rfl,rfl⟩

lemma getSampler_entries {desc : SamplerDesc} {id : ℕ} {cmds : List ResourceCmd}
    (h : c.getSampler desc = some (id,d,cmds)) :
    d.entries = c.entries ∧ d.whiteDummy = c.whiteDummy := by
  obtain ⟨-,rfl,rfl⟩ | ⟨-,rfl,rfl,rfl⟩ := getSampler_eq_some h
  · exact ⟨rfl,rfl⟩
  · exact ⟨rfl,rfl⟩

lemma getWhiteDummy_entries {id : ℕ} {cmds : List ResourceCmd}
    (h : c.getWhiteDummy = some (id,d,cmds)) : d.entries = c.entries ∧ d.whiteDummy = some id := by
  obtain ⟨hdummy,rfl,rfl⟩ | ⟨-,rfl,rfl,rfl⟩ := getWhiteDummy_eq_some h
  · exact ⟨rfl,hdummy⟩
  · exact ⟨rfl,rfl⟩

end ResourceCache

/-- Every operation but a free keeps the render targets. -/
lemma CacheOp.apply_keepsTargets {pol : CachePolicy} {detile : Bytes → SurfaceLayout → Option Bytes}
    {c d : ResourceCache} {out : List ResourceCmd} {op : CacheOp}
    (hop : ∀ addr size, op ≠ .freeRange addr size) (h : op.apply pol detile c = some (d,out)) :
    c.KeepsTargets d := by
  cases op with
  | get now read key | getTexture now read key surface format =>
    obtain ⟨r,hr,heq⟩ := Option.map_eq_some_iff.mp h
    cases heq
    exact ResourceCache.acquire_keepsTargets hr
  | getRenderTarget key surface format =>
    obtain ⟨⟨id,r⟩,hr,rfl⟩ := Option.map_eq_some_iff.mp h
    exact (ResourceCache.getRenderTarget_keepsTargets hr).1
  | getSampler desc =>
    obtain ⟨⟨id,r⟩,hr,rfl⟩ := Option.map_eq_some_iff.mp h
    refine ResourceCache.keepsTargets_of_subset ?_
    rw [(ResourceCache.getSampler_entries hr).1]
    exact List.Subset.refl _
  | getWhiteDummy =>
    obtain ⟨⟨id,r⟩,hr,rfl⟩ := Option.map_eq_some_iff.mp h
    refine ResourceCache.keepsTargets_of_subset ?_
    rw [(ResourceCache.getWhiteDummy_entries hr).1]
    exact List.Subset.refl _
  | trim now =>
    have heq : (c.trim now).1 = d := congrArg Prod.fst (Option.some.inj h)
    exact heq ▸ c.trim_keepsTargets now
  | applyDirty dirtied =>
    cases h
    exact c.markDirty_keepsTargets _
  | invalidateRange addr size =>
    cases h
    exact c.markDirty_keepsTargets _
  | freeRange addr size => exact absurd rfl (hop addr size)

/-- The render targets of a run's commands: those created, the one set since the last draw of
the list, those a draw was issued under, and the images bound that were not. -/
structure TargetLog where
  created : List ℕ
  current : Option ℕ
  rendered : List ℕ
  early : List ℕ
  deriving DecidableEq, Repr

namespace TargetLog

def empty : TargetLog := ⟨[],none,[],[]⟩

def step (l : TargetLog) : BackendCmd → TargetLog
  | .resource (.createRenderTarget id _ _ _) => { l with created := id :: l.created }
  | .setRenderTarget id => { l with current := if id ∈ l.created then some id else none }
  | .drawAuto _ | .drawIndexed _ _ _ =>
      { l with rendered := l.current.toList ++ l.rendered, current := none }
  | .bindTexture _ imageId _ =>
      { l with early := if imageId ∈ l.rendered then l.early else imageId :: l.early }
  | _ => l

def feed (l : TargetLog) (cmds : List BackendCmd) : TargetLog := cmds.foldl step l

/-- A list starts without a target. -/
def feedList (l : TargetLog) (cmds : List BackendCmd) : TargetLog :=
  feed { l with current := none } cmds

/-- Every render target bound as a texture had a draw issued under it before. -/
def Sound (l : TargetLog) : Prop := ∀ id ∈ l.early, id ∉ l.created

end TargetLog

/-- The registration of the offscreen target of a draw. -/
def DrawInputs.registration (d : DrawInputs) : Option RegisteredRt :=
  d.drawState.bind fun draw => match draw.target.kind with
    | .videoout => none
    | .offscreen base size => some ⟨base,size,draw.target⟩

namespace Exec

variable (T : Toolchain) (e : Exec)

/-- The bases that the registry names although nothing was drawn into the target it would
bind: a draw that gave up after its registration adds its base, one that was issued takes it
away. -/
def staleAfter (stale : List ℕ) (p : Packet) : List ℕ :=
  match p.draw e.index with
  | none => stale
  | some (d,shape) => match d.registration, e.setupDraw T d with
      | some rt, some (_,true) =>
          if shape.isVoid e.index.indexType then
            if rt ∈ e.renderTargets then stale else rt.base :: stale
          else stale.filter (· ≠ rt.base)
      | _, _ => stale

/-- The draw of the packet, if it is one, samples no target of a stale base. -/
def SamplesFresh (stale : List ℕ) (p : Packet) : Prop :=
  ∀ d shape, p.draw e.index = some (d,shape) → ∀ vs ps, (e.resolveShaders T d.bound).1 = some (vs,ps) →
    ∀ sb ∈ ps.samplers, ∀ t, d.texture sb = some t →
      ∀ rt, lookupRt e.renderTargets t.base t.byteSpan = some rt → rt.base ∉ stale

def walkStale (e : Exec) (stale : List ℕ) : List Packet → List ℕ
  | [] => stale
  | p :: ps => match e.handle T p with
      | none => stale
      | some e' => e'.walkStale (e.staleAfter T stale p) ps

def WalksFresh (e : Exec) (stale : List ℕ) : List Packet → Prop
  | [] => True
  | p :: ps => e.SamplesFresh T stale p ∧
      ∀ e', e.handle T p = some e' → e'.WalksFresh (e.staleAfter T stale p) ps

end Exec

/-- The index state each run of the executor starts from. -/
def IndexState.initial : IndexState := ⟨.u16,0,0⟩

/-- The registered bases whose range overlaps a freed one. -/
def freedBases (rts : List RegisteredRt) (addr size : ℕ) : List ℕ :=
  (rts.filter fun rt => rangesOverlap rt.base rt.size addr size).map (·.base)

/-- The driver's state with the log of all it emitted and the stale bases, in any run from
boot on. -/
inductive TargetRun (T : Toolchain)
    (ok : Exec → List ℕ → List Packet → Prop) : Exec → TargetLog → List ℕ → Prop
  | boot (bytes : ℕ → UInt8) (readable : ℕ → ℕ → Bool) :
      TargetRun T ok ⟨.new,[],[],1,[],.initial,bytes,readable,[]⟩ .empty []
  | submit {e e' : Exec} {l : TargetLog} {stale : List ℕ} (packets : List Packet) :
      TargetRun T ok e l stale → ok { e with index := .initial } stale packets →
      Exec.walk T { e with index := .initial } packets = some e' →
      TargetRun T ok { e' with cmds := [] } (l.feedList e'.cmds)
        (Exec.walkStale T { e with index := .initial } stale packets)
  | guest {e : Exec} {l : TargetLog} {stale : List ℕ} (bytes : ℕ → UInt8)
      (readable : ℕ → ℕ → Bool) :
      TargetRun T ok e l stale →
      TargetRun T ok { e with bytes := bytes, readable := readable } l stale
  | dirty {e : Exec} {l : TargetLog} {stale : List ℕ} (ranges : List (ℕ × ℕ)) :
      TargetRun T ok e l stale →
      TargetRun T ok (e.applyDirty ranges) l stale
  | free {e : Exec} {l : TargetLog} {stale : List ℕ} (addr size : ℕ) :
      TargetRun T ok e l stale →
      TargetRun T ok { e with cache := (e.cache.freeRange addr size).1 }
        (l.feedList ((e.cache.freeRange addr size).2.1.map .resource))
        (freedBases e.renderTargets addr size ++ stale)
  | rehash {e : Exec} {l : TargetLog} {stale : List ℕ} {entries : List (ResourceKey × Entry)} :
      TargetRun T ok e l stale → entries.Perm e.cache.entries →
      TargetRun T ok { e with cache.entries := entries } l stale

/-- `render_target_key` -/
def RegisteredRt.key (rt : RegisteredRt) : ResourceKey :=
  ⟨rt.base,rt.size,.renderTarget ⟨10,0⟩ ⟨.bpp32,rt.desc.width,rt.desc.height,.linearGeneral,0⟩⟩

namespace TargetLog

variable {l : TargetLog}

lemma feed_append (l : TargetLog) (as bs : List BackendCmd) :
    l.feed (as ++ bs) = (l.feed as).feed bs := List.foldl_append

/-- A resource command changes the created targets only. -/
lemma feed_resources (l : TargetLog) (cmds : List ResourceCmd) :
    (l.feed (cmds.map .resource)).current = l.current ∧
      (l.feed (cmds.map .resource)).rendered = l.rendered ∧
      (l.feed (cmds.map .resource)).early = l.early ∧
      ∀ id, id ∈ (l.feed (cmds.map .resource)).created ↔
        id ∈ l.created ∨ FiledBy cmds .renderTargets id := by
  induction cmds generalizing l with
  | nil => exact ⟨rfl,rfl,rfl,fun id => by simp [feed, FiledBy]⟩
  | cons cmd cmds ih =>
    obtain ⟨hcurrent,hrendered,hearly,hcreated⟩ := ih (l.step (.resource cmd))
    have hcons (id : ℕ) : FiledBy (cmd :: cmds) .renderTargets id ↔
        (∃ o, cmd.files = some (.renderTargets,id,o)) ∨ FiledBy cmds .renderTargets id := by
      simp [FiledBy]
    refine ⟨hcurrent.trans ?_,hrendered.trans ?_,hearly.trans ?_,fun id => (hcreated id).trans ?_⟩
    · cases cmd <;> rfl
    · cases cmd <;> rfl
    · cases cmd <;> rfl
    · rw [hcons]
      cases cmd <;> simp [step, ResourceCmd.files, or_assoc, or_left_comm, eq_comm]

end TargetLog

section Tracked

variable (T : Toolchain)

/-- The log knows the targets the cache was made with; images bound early are no targets; the
targets of `good` are in the cache, drawn into. -/
structure Tracked (good : RegisteredRt → Prop) (c : ResourceCache) (l : TargetLog) : Prop where
  history : ∃ res, TypedRun copyPolicy T.detile (fun _ _ => True) c res ∧
    (∀ id, id ∈ l.created ↔ FiledBy res .renderTargets id) ∧ ∀ id ∈ l.early, FiledBy res .images id
  held : ∀ rt, good rt → ∃ p ∈ c.entries, p.1 = rt.key ∧ p.2.id ∈ l.rendered

/-- A target drawn into, a texture or the white dummy. -/
def Bindable (c : ResourceCache) (l : TargetLog) (id : ℕ) : Prop :=
  id ∈ l.rendered ∨ (∃ p ∈ c.entries, isTexture p.1.layout ∧ p.2.id = id) ∨ c.whiteDummy = some id

namespace Tracked

variable {T} {good : RegisteredRt → Prop} {c d : ResourceCache} {l : TargetLog}

/-- No id is made both as an image and as a render target. -/
lemma sound (h : Tracked T good c l) : l.Sound := by
  obtain ⟨res,hrun,hcreated,hearly⟩ := h.history
  intro id hid hmem
  obtain ⟨a,ha,o,hfa⟩ := hearly id hid
  obtain ⟨b,hb,o',hfb⟩ := (hcreated id).mp hmem
  obtain rfl := hrun.create_unique ha hb (ResourceCmd.files_event hfa) (ResourceCmd.files_event hfb)
  rw [hfa] at hfb
  cases hfb

lemma mono {good' : RegisteredRt → Prop} (h : Tracked T good c l)
    (hgood : ∀ rt, good' rt → good rt) : Tracked T good' c l :=
  ⟨h.history,fun rt hrt => h.held rt (hgood rt hrt)⟩

lemma congr {l' : TargetLog} (h : Tracked T good c l) (hcreated : l'.created = l.created)
    (hearly : l'.early = l.early) (hrendered : l.rendered ⊆ l'.rendered) :
    Tracked T good c l' := by
  refine ⟨?_,fun rt hrt => ?_⟩
  · rw [hcreated, hearly]
    exact h.history
  · obtain ⟨p,hp,hkey,hid⟩ := h.held rt hrt
    exact ⟨p,hp,hkey,hrendered hid⟩

/-- An operation of the cache extends the history. -/
lemma typed_step (h : Tracked T good c l) (op : CacheOp) {out : List ResourceCmd}
    (htyped : op.Typed) (hop : op.apply copyPolicy T.detile c = some (d,out)) :
    ∃ res, TypedRun copyPolicy T.detile (fun _ _ => True) d res ∧
      (∀ id, id ∈ (l.feed (out.map .resource)).created ↔ FiledBy res .renderTargets id) ∧
        ∀ id ∈ (l.feed (out.map .resource)).early, FiledBy res .images id := by
  obtain ⟨res,hrun,hcreated,hearly⟩ := h.history
  obtain ⟨-,-,heq,hfeed⟩ := l.feed_resources out
  refine ⟨res ++ out,hrun.step op htyped trivial hop,fun id => ?_,fun id hid => ?_⟩
  · rw [hfeed, hcreated]
    simp only [FiledBy, List.mem_append, or_and_right, exists_or]
  · rw [heq] at hid
    exact (hearly id hid).mono (List.subset_append_left _ _)

lemma op (h : Tracked T good c l) (op : CacheOp) {out : List ResourceCmd}
    (htyped : op.Typed) (hkeep : ∀ addr size, op ≠ .freeRange addr size)
    (hop : op.apply copyPolicy T.detile c = some (d,out)) :
    Tracked T good d (l.feed (out.map .resource)) := by
  refine ⟨h.typed_step op htyped hop,fun rt hrt => ?_⟩
  obtain ⟨p,hp,hkey,hid⟩ := h.held rt hrt
  obtain ⟨q,hq,hkey',hid'⟩ := CacheOp.apply_keepsTargets hkeep hop p hp (by rw [hkey]; rfl)
  rw [(l.feed_resources out).2.1]
  exact ⟨q,hq,hkey'.trans hkey,hid' ▸ hid⟩

/-- A freed range spoils the targets it overlaps. -/
lemma freeRange (h : Tracked T good c l) (addr size : ℕ) :
    Tracked T (fun rt => good rt ∧ rangesOverlap rt.base rt.size addr size = false)
      (c.freeRange addr size).1 (l.feed ((c.freeRange addr size).2.1.map .resource)) := by
  refine ⟨h.typed_step (.freeRange addr size) trivial rfl,fun rt hrt => ?_⟩
  obtain ⟨p,hp,hkey,hid⟩ := h.held rt hrt.1
  rw [(l.feed_resources _).2.1]
  refine ⟨p,(c.freeKeys_frees _).keeps hp fun hmem => ?_,hkey,hid⟩
  have hoverlap := (List.mem_filter.mp hmem).2
  rw [hkey] at hoverlap
  simp [RegisteredRt.key, hrt.2] at hoverlap

lemma rehash (h : Tracked T good c l) {entries : List (ResourceKey × Entry)}
    (hperm : entries.Perm c.entries) : Tracked T good { c with entries := entries } l := by
  obtain ⟨res,hrun,hlog⟩ := h.history
  refine ⟨⟨res,hrun.rehash hperm,hlog⟩,fun rt hrt => ?_⟩
  obtain ⟨p,hp,hrest⟩ := h.held rt hrt
  exact ⟨p,hperm.mem_iff.mpr hp,hrest⟩

/-- A render target found by its key was created. -/
lemma created (h : Tracked T good c l) {p : ResourceKey × Entry} (hp : p ∈ c.entries)
    (hrt : isRenderTarget p.1.layout) : p.2.id ∈ l.created := by
  obtain ⟨res,hrun,hcreated,-⟩ := h.history
  have hfiled := hrun.filed hp
  rw [homeOf_renderTarget.mp hrt] at hfiled
  exact (hcreated p.2.id).mpr hfiled

/-- Keys are unique, so the target of a good registration is the one drawn into. -/
lemma rendered (h : Tracked T good c l) {rt : RegisteredRt} (hrt : good rt)
    {p : ResourceKey × Entry} (hp : p ∈ c.entries) (hkey : p.1 = rt.key) : p.2.id ∈ l.rendered := by
  obtain ⟨res,hrun,-⟩ := h.history
  obtain ⟨hwf,-⟩ := hrun.cacheRun.emits new_wellFormed
  obtain ⟨q,hq,hkey',hid⟩ := h.held rt hrt
  rw [List.inj_on_of_nodup_map hwf.keys hp hq (hkey.trans hkey'.symm)]
  exact hid

lemma bindTexture (h : Tracked T good c l) (slot : Slot) {id : ℕ} (samplerId : ℕ)
    (hid : Bindable c l id) : Tracked T good c (l.step (.bindTexture slot id samplerId)) := by
  refine ⟨?_,h.held⟩
  obtain ⟨res,hrun,hcreated,hearly⟩ := h.history
  refine ⟨res,hrun,hcreated,fun x hx => ?_⟩
  simp only [TargetLog.step] at hx
  split_ifs at hx with hrendered
  · exact hearly x hx
  · rcases List.mem_cons.mp hx with rfl | hx
    · rcases hid.resolve_left hrendered with ⟨p,hp,htex,rfl⟩ | hdummy
      · have hfiled := hrun.filed hp
        rwa [homeOf_texture.mp htex] at hfiled
      · exact hrun.filed_dummy hdummy
    · exact hearly x hx

end Tracked

end Tracked

namespace Exec

variable {T : Toolchain} {good : RegisteredRt → Prop}
  {e e' : Exec}

variable (T good) in
/-- A step of a draw's setup that sets no target and draws nothing. -/
structure Quiet (e e' : Exec) : Prop where
  tracked : ∀ l : TargetLog, Tracked T good e.cache (l.feed e.cmds) →
    Tracked T good e'.cache (l.feed e'.cmds)
  current : ∀ l : TargetLog, (l.feed e'.cmds).current = (l.feed e.cmds).current
  rendered : ∀ l : TargetLog, (l.feed e'.cmds).rendered = (l.feed e.cmds).rendered
  targets : e.cache.KeepsTargets e'.cache
  registry : e'.renderTargets = e.renderTargets

lemma Quiet.refl (e : Exec) : Quiet T good e e :=
  ⟨fun _ h => h,fun _ => rfl,fun _ => rfl,ResourceCache.keepsTargets_of_subset (List.Subset.refl _),rfl⟩

lemma Quiet.trans {e₁ : Exec} (h : Quiet T good e e₁) (h' : Quiet T good e₁ e') :
    Quiet T good e e' :=
  ⟨fun l ht => h'.tracked l (h.tracked l ht),fun l => (h'.current l).trans (h.current l),
    fun l => (h'.rendered l).trans (h.rendered l),h.targets.trans h'.targets,
    h'.registry.trans h.registry⟩

lemma Quiet.congr (hcache : e'.cache = e.cache) (hcmds : e'.cmds = e.cmds)
    (hregistry : e'.renderTargets = e.renderTargets) : Quiet T good e e' := by
  refine ⟨fun l ht => ?_,fun l => by rw [hcmds],fun l => by rw [hcmds],?_,hregistry⟩
  · rwa [hcache, hcmds]
  · refine ResourceCache.keepsTargets_of_subset ?_
    rw [hcache]
    exact List.Subset.refl _

/-- An operation of the cache, its commands appended. -/
lemma Quiet.op (e : Exec) (op : CacheOp) {c : ResourceCache} {out : List ResourceCmd}
    (htyped : op.Typed) (hkeep : ∀ addr size, op ≠ .freeRange addr size)
    (hop : op.apply copyPolicy T.detile e.cache = some (c,out)) :
    Quiet T good e { e with cache := c, cmds := e.cmds ++ out.map .resource } := by
  refine ⟨fun l ht => ?_,fun l => ?_,fun l => ?_,CacheOp.apply_keepsTargets hkeep hop,rfl⟩ <;>
    rw [l.feed_append]
  · exact ht.op op htyped hkeep hop
  · exact ((l.feed e.cmds).feed_resources out).1
  · exact ((l.feed e.cmds).feed_resources out).2.1

/-- A command the log does not look at. -/
lemma Quiet.emit (e : Exec) {cmd : BackendCmd} (hcmd : ∀ l : TargetLog, l.step cmd = l) :
    Quiet T good e (e.emit cmd) := by
  have heq (l : TargetLog) : l.feed (e.emit cmd).cmds = l.feed e.cmds := by
    rw [Exec.emit, l.feed_append]
    exact hcmd _
  refine ⟨fun l ht => ?_,fun l => by rw [heq],fun l => by rw [heq],
    ResourceCache.keepsTargets_of_subset (List.Subset.refl _),rfl⟩
  rw [heq]
  exact ht

lemma fetch_quiet {now id : ℕ} {key : ResourceKey} (hkey : isLinearBuffer key.layout)
    (h : e.fetch now key = some (id,e')) : Quiet T good e e' := by
  obtain ⟨r,hr,heq⟩ := Option.map_eq_some_iff.mp h
  cases heq
  exact Quiet.op e (.get now e.read key) hkey nofun (by simp [CacheOp.apply, hr])

lemma fetchTexture_quiet {now id : ℕ} {key : ResourceKey} {surface : SurfaceLayout}
    {format : TextureFormat} (hkey : isTexture key.layout)
    (h : e.fetchTexture T now key surface format = some (id,e')) :
    Quiet T good e e' ∧ ∃ p ∈ e'.cache.entries, p.1 = key ∧ p.2.id = id := by
  obtain ⟨r,hr,heq⟩ := Option.map_eq_some_iff.mp h
  cases heq
  refine ⟨Quiet.op e (.getTexture now e.read key surface format) hkey nofun ?_,
    ResourceCache.acquire_entry hr⟩
  simp [CacheOp.apply, hr]

lemma fetchRenderTarget_quiet {id : ℕ} (rt : RegisteredRt)
    (h : e.fetchRenderTarget rt.base rt.size rt.desc = some (id,e')) :
    Quiet T good e e' ∧ ∃ p ∈ e'.cache.entries, p.1 = rt.key ∧ p.2.id = id := by
  obtain ⟨⟨x,c,out⟩,hr,heq⟩ := Option.map_eq_some_iff.mp h
  cases heq
  refine ⟨Quiet.op e (.getRenderTarget rt.key
    ⟨.bpp32,rt.desc.width,rt.desc.height,.linearGeneral,0⟩ .r8g8b8a8Unorm) rfl nofun ?_,
    (ResourceCache.getRenderTarget_keepsTargets hr).2⟩
  exact Option.map_eq_some_iff.mpr ⟨_,hr,rfl⟩

lemma fetchSampler_quiet {desc : SamplerDesc} {id : ℕ} (h : e.fetchSampler desc = some (id,e')) :
    Quiet T good e e' ∧ e'.cache.entries = e.cache.entries ∧
      e'.cache.whiteDummy = e.cache.whiteDummy := by
  obtain ⟨⟨x,c,out⟩,hr,heq⟩ := Option.map_eq_some_iff.mp h
  cases heq
  refine ⟨Quiet.op e (.getSampler desc) trivial nofun ?_,
    ResourceCache.getSampler_entries hr⟩
  simp [CacheOp.apply, hr]

lemma fetchWhiteDummy_quiet {id : ℕ} (h : e.fetchWhiteDummy = some (id,e')) :
    Quiet T good e e' ∧ e'.cache.whiteDummy = some id := by
  obtain ⟨⟨x,c,out⟩,hr,heq⟩ := Option.map_eq_some_iff.mp h
  cases heq
  refine ⟨Quiet.op e (.getWhiteDummy) trivial nofun ?_,
    (ResourceCache.getWhiteDummy_entries hr).2⟩
  simp [CacheOp.apply, hr]

lemma fetchImage_quiet {now id : ℕ} {src : TextureSource}
    (hsrc : ∀ rt t, src = .renderTarget rt t → good rt)
    (h : e.fetchImage T now src = some (id,e')) :
    Quiet T good e e' ∧ ∀ l : TargetLog, Tracked T good e.cache (l.feed e.cmds) →
      Bindable e'.cache (l.feed e'.cmds) id := by
  cases src with
  | renderTarget rt t =>
    obtain ⟨hquiet,p,hp,hkey,rfl⟩ := fetchRenderTarget_quiet rt h
    refine ⟨hquiet,fun l ht => .inl ?_⟩
    exact (hquiet.tracked l ht).rendered (hsrc rt t rfl) hp hkey
  | plain t =>
    simp only [Exec.fetchImage] at h
    split_ifs at h
    · obtain ⟨hquiet,hdummy⟩ := fetchWhiteDummy_quiet h
      exact ⟨hquiet,fun l _ => .inr (.inr hdummy)⟩
    · obtain ⟨hquiet,p,hp,hkey,hid⟩ := fetchTexture_quiet (by rfl) h
      exact ⟨hquiet,fun l _ => .inr (.inl ⟨p,hp,by rw [hkey]; rfl,hid⟩)⟩

lemma bindTexture_quiet {now : ℕ} {b : SamplerBinding × TextureSource}
    (hsrc : ∀ rt t, b.2 = .renderTarget rt t → good rt)
    (h : e.bindTexture T now b = some e') : Quiet T good e e' := by
  obtain ⟨⟨id,e₁⟩,himage,h⟩ := Option.bind_eq_some_iff.mp h
  obtain ⟨⟨samplerId,e₂⟩,hsampler,rfl⟩ := Option.map_eq_some_iff.mp h
  obtain ⟨hquiet₁,hbindable⟩ := fetchImage_quiet hsrc himage
  obtain ⟨hquiet₂,hentries,hdummy⟩ := fetchSampler_quiet hsampler
  have hquiet := hquiet₁.trans hquiet₂
  refine ⟨fun l ht => ?_,fun l => ?_,fun l => ?_,hquiet.targets,hquiet.registry⟩ <;>
    dsimp only [Exec.emit] <;> rw [l.feed_append]
  · refine (hquiet.tracked l ht).bindTexture ⟨b.1.set,b.1.binding⟩ samplerId ?_
    have hid := hbindable l ht
    rwa [Bindable, ← hentries, ← hdummy, ← hquiet₂.rendered] at hid
  · exact hquiet.current l
  · exact hquiet.rendered l

lemma bindConst_quiet {now : ℕ} {c : ConstBufferBinding × BufferRange}
    (h : e.bindConst now c = some e') : Quiet T good e e' := by
  obtain ⟨⟨id,e₁⟩,hget,rfl⟩ := Option.map_eq_some_iff.mp h
  exact (fetch_quiet rfl hget).trans (Quiet.emit e₁ fun _ => rfl)

lemma bindStorage_quiet {now : ℕ} {b : ℕ × BufferBinding × BufferRange}
    (h : e.bindStorage now b = some e') : Quiet T good e e' := by
  obtain ⟨⟨id,e₁⟩,hget,rfl⟩ := Option.map_eq_some_iff.mp h
  exact (fetch_quiet rfl hget).trans (Quiet.emit e₁ fun _ => rfl)

lemma bindVertex_quiet {now : ℕ} {b : ℕ × BufferRange} (h : e.bindVertex now b = some e') :
    Quiet T good e e' := by
  obtain ⟨⟨id,e₁⟩,hget,rfl⟩ := Option.map_eq_some_iff.mp h
  exact (fetch_quiet rfl hget).trans (Quiet.emit e₁ fun _ => rfl)

lemma bindAll_quiet {α : Type} {bind : Exec → α → Option Exec} {as : List α}
    (hbind : ∀ e a e', a ∈ as → bind e a = some e' → Quiet T good e e')
    (h : bindAll bind e as = some e') : Quiet T good e e' := by
  induction as generalizing e with
  | nil =>
    cases h
    exact .refl _
  | cons a as ih =>
    obtain ⟨e₁,hone,hrest⟩ := Option.bind_eq_some_iff.mp h
    have hquiet := hbind _ a e₁ List.mem_cons_self hone
    exact hquiet.trans (ih (fun e b e' hb => hbind e b e' (List.mem_cons_of_mem _ hb)) hrest)

lemma bindBuffers_quiet {d : DrawInputs} {vs : HostShader} {bound : Bool}
    (h : e.bindBuffers d vs = some (e',bound)) : Quiet T good e e' := by
  unfold Exec.bindBuffers at h
  split_ifs at h
  · cases h
    exact .refl e
  · obtain ⟨e₁,hall,heq⟩ := Option.map_eq_some_iff.mp h
    cases heq
    exact bindAll_quiet (fun _ _ _ _ hb => bindStorage_quiet hb) hall
  · obtain ⟨e₁,hall,heq⟩ := Option.map_eq_some_iff.mp h
    cases heq
    exact bindAll_quiet (fun _ _ _ _ hb => bindVertex_quiet hb) hall

lemma bindPipeline_quiet (e : Exec) (pipeline : HostPipeline) :
    Quiet T good e (e.bindPipeline pipeline) := by
  unfold Exec.bindPipeline
  cases e.pipelines.lookup pipeline.key with
  | some id => exact .emit e fun _ => rfl
  | none =>
    have hcreate : Quiet T good e (e.emit (.createPipeline e.nextPipeline pipeline)) :=
      .emit e fun _ => rfl
    have hmint : Quiet T good e
        { e.emit (.createPipeline e.nextPipeline pipeline) with
          pipelines := (pipeline.key,e.nextPipeline) :: e.pipelines
          nextPipeline := e.nextPipeline+1 } :=
      ⟨hcreate.tracked,hcreate.current,hcreate.rendered,hcreate.targets,rfl⟩
    exact hmint.trans (.emit _ fun _ => rfl)

/-- The target of a draw is current from its registration on. -/
lemma registerRenderTarget_spec {target : TargetDesc} (h : e.registerRenderTarget target = some e') :
    e'.renderTargets = e.renderTargets ∧
      ∀ l : TargetLog, Tracked T good e.cache (l.feed e.cmds) →
        Tracked T good e'.cache (l.feed e'.cmds) ∧
          ∀ base size, target.kind = .offscreen base size →
            ∃ p ∈ e'.cache.entries, p.1 = RegisteredRt.key ⟨base,size,target⟩ ∧
              (l.feed e'.cmds).current = some p.2.id := by
  unfold Exec.registerRenderTarget at h
  cases hkind : target.kind with
  | videoout =>
    simp only [hkind, Option.some.injEq] at h
    subst h
    exact ⟨rfl,fun l ht => ⟨ht,nofun⟩⟩
  | offscreen base size =>
    simp only [hkind] at h
    obtain ⟨⟨id,e₁⟩,hget,rfl⟩ := Option.map_eq_some_iff.mp h
    have hfetch : Quiet T good e e₁ ∧ _ := fetchRenderTarget_quiet ⟨base,size,target⟩ hget
    obtain ⟨hquiet,p,hp,hkey,rfl⟩ := hfetch
    refine ⟨hquiet.registry,fun l ht => ?_⟩
    have ht₁ := hquiet.tracked l ht
    dsimp only [Exec.emit]
    rw [l.feed_append]
    refine ⟨ht₁.congr rfl rfl (List.Subset.refl _),?_⟩
    rintro _ _ ⟨⟩
    have hcreated := ht₁.created hp (by rw [hkey]; rfl)
    exact ⟨p,hp,hkey,by simp [TargetLog.feed, TargetLog.step] at hcreated ⊢; exact hcreated⟩

/-- What a draw with this registration leaves the registry at. -/
def registered (rts : List RegisteredRt) : Option RegisteredRt → List RegisteredRt
  | none => rts
  | some rt => registerRt rts rt

lemma registration_eq {d : DrawInputs} {draw : DrawState} {rt : RegisteredRt}
    (hdraw : d.drawState = some draw) (h : d.registration = some rt) :
    ∃ base size, draw.target.kind = .offscreen base size ∧ rt = ⟨base,size,draw.target⟩ := by
  cases hkind : draw.target.kind with
  | videoout => simp [DrawInputs.registration, hdraw, hkind] at h
  | offscreen base size =>
    simp only [DrawInputs.registration, hdraw, Option.bind_some, hkind, Option.some.injEq] at h
    exact ⟨base,size,rfl,h.symm⟩

lemma bindDraw_spec {d : DrawInputs} {vs ps : HostShader} {draw : DrawState} {r : Resolved}
    {ready : Bool} (hdraw : d.drawState = some draw)
    (hsrc : ∀ b ∈ r.textures, ∀ rt t, b.2 = .renderTarget rt t → good rt)
    (h : e.bindDraw T d vs ps draw r = some (e',ready)) :
    ∃ e₁, Quiet T good e e₁ ∧ e'.cache = e₁.cache ∧ (∀ l : TargetLog, l.feed e'.cmds = l.feed e₁.cmds) ∧
      e'.renderTargets = registered e.renderTargets (if ready then d.registration else none) := by
  simp only [Exec.bindDraw, Option.bind_eq_bind, Option.pure_def] at h
  obtain ⟨e₁,htex,h⟩ := Option.bind_eq_some_iff.mp h
  obtain ⟨e₂,hconst,h⟩ := Option.bind_eq_some_iff.mp h
  obtain ⟨⟨e₃,bound⟩,hbuf,h⟩ := Option.bind_eq_some_iff.mp h
  have hquiet : Quiet T good e e₃ :=
    (((bindPipeline_quiet e _).trans
      (bindAll_quiet (fun _ b _ hb h => bindTexture_quiet (hsrc b hb) h) htex)).trans
      (bindAll_quiet (fun _ _ _ _ h => bindConst_quiet h) hconst)).trans (bindBuffers_quiet hbuf)
  refine ⟨e₃,hquiet,?_⟩
  cases bound with
  | false =>
    cases h
    exact ⟨rfl,fun _ => rfl,hquiet.registry⟩
  | true =>
    cases h
    have hregistry : (e₃.commitTarget draw.target).renderTargets =
        registered e.renderTargets d.registration := by
      rw [← hquiet.registry]
      cases hkind : draw.target.kind <;>
        simp [Exec.commitTarget, DrawInputs.registration, hdraw, hkind, registered]
    have hsame : (e₃.commitTarget draw.target).cache = e₃.cache ∧
        (e₃.commitTarget draw.target).cmds = e₃.cmds := by
      cases hkind : draw.target.kind <;> simp [Exec.commitTarget, hkind]
    refine ⟨hsame.1,fun l => ?_,hregistry⟩
    simp only [Exec.emit, l.feed_append, hsame.2]
    rfl

lemma mem_of_mapM {α β : Type} {f : α → Option β} {as : List α} {bs : List β}
    (h : as.mapM f = some bs) {b : β} (hb : b ∈ bs) : ∃ a ∈ as, f a = some b := by
  induction as generalizing bs with
  | nil =>
    cases h
    simp at hb
  | cons a as ih =>
    simp only [List.mapM_cons, Option.bind_eq_bind, Option.pure_def] at h
    obtain ⟨x,hx,h⟩ := Option.bind_eq_some_iff.mp h
    obtain ⟨xs,hxs,h⟩ := Option.bind_eq_some_iff.mp h
    cases h
    rcases List.mem_cons.mp hb with rfl | hb
    · exact ⟨a,List.mem_cons_self,hx⟩
    · obtain ⟨y,hy,hfy⟩ := ih hxs hb
      exact ⟨y,List.mem_cons_of_mem _ hy,hfy⟩

/-- A target among the resolved textures was looked up for one of the samplers. -/
lemma resolve_target {d : DrawInputs} {rts : List RegisteredRt} {vs ps : HostShader} {r : Resolved}
    (h : d.resolve rts vs ps = some r) {b : SamplerBinding × TextureSource} (hb : b ∈ r.textures)
    {rt : RegisteredRt} {t : TextureRange} (hbt : b.2 = .renderTarget rt t) :
    ∃ sb ∈ ps.samplers, d.texture sb = some t ∧ lookupRt rts t.base t.byteSpan = some rt := by
  simp only [DrawInputs.resolve, Option.bind_eq_bind, Option.pure_def] at h
  obtain ⟨vsConst,-,h⟩ := Option.bind_eq_some_iff.mp h
  obtain ⟨psConst,-,h⟩ := Option.bind_eq_some_iff.mp h
  obtain ⟨textures,htex,h⟩ := Option.bind_eq_some_iff.mp h
  obtain ⟨layout,-,h⟩ := Option.bind_eq_some_iff.mp h
  cases h
  obtain ⟨sb,hsb,hone⟩ := mem_of_mapM htex hb
  obtain ⟨range,hrange,hone⟩ := Option.bind_eq_some_iff.mp hone
  cases hlook : lookupRt rts range.base range.byteSpan with
  | some found =>
    simp only [hlook, Option.some.injEq] at hone
    subst hone
    cases hbt
    exact ⟨sb,hsb,hrange,hlook⟩
  | none =>
    simp only [hlook] at hone
    split_ifs at hone
    cases hone
    cases hbt

/-- A draw whose sampled targets are good leaves the good ones good; when it is ready, its own
target is registered and current. -/
lemma setupDraw_spec {d : DrawInputs} {ready : Bool}
    (hsrc : ∀ vs ps, (e.resolveShaders T d.bound).1 = some (vs,ps) → ∀ sb ∈ ps.samplers, ∀ t,
      d.texture sb = some t → ∀ rt, lookupRt e.renderTargets t.base t.byteSpan = some rt → good rt)
    (h : e.setupDraw T d = some (e',ready)) {l : TargetLog}
    (ht : Tracked T good e.cache (l.feed e.cmds)) :
    Tracked T good e'.cache (l.feed e'.cmds) ∧
      e'.renderTargets = registered e.renderTargets (if ready then d.registration else none) ∧
      (ready → ∀ rt, d.registration = some rt →
        ∃ p ∈ e'.cache.entries, p.1 = rt.key ∧ (l.feed e'.cmds).current = some p.2.id) := by
  have ht₀ : Tracked T good (e.resolveShaders T d.bound).2.cache
      (l.feed (e.resolveShaders T d.bound).2.cmds) := ht
  simp only [Exec.setupDraw] at h
  split at h
  · cases h
    exact ⟨ht₀,rfl,fun hready => absurd hready Bool.false_ne_true⟩
  · rename_i vs ps hshaders
    split at h
    · cases h
      exact ⟨ht₀,rfl,fun hready => absurd hready Bool.false_ne_true⟩
    · rename_i draw hdraw
      obtain ⟨e₁,hreg,h⟩ := Option.bind_eq_some_iff.mp h
      obtain ⟨hregistry,hreg⟩ := registerRenderTarget_spec hreg
      replace hregistry : e₁.renderTargets = e.renderTargets := hregistry
      obtain ⟨ht₁,hcurrent⟩ := hreg l ht₀
      split at h
      · cases h
        exact ⟨ht₁,hregistry,fun hready => absurd hready Bool.false_ne_true⟩
      · rename_i r hresolve
        have hsrc' : ∀ b ∈ r.textures, ∀ rt t, b.2 = .renderTarget rt t → good rt := by
          intro b hb rt t hbt
          obtain ⟨sb,hsb,htex,hlook⟩ := resolve_target hresolve hb hbt
          exact hsrc vs ps hshaders sb hsb t htex rt (hregistry ▸ hlook)
        obtain ⟨e₂,hquiet,hcache,hlog,hafter⟩ := bindDraw_spec hdraw hsrc' h
        rw [hcache, hlog, hafter, hregistry]
        refine ⟨hquiet.tracked l ht₁,rfl,fun _ rt hrt => ?_⟩
        obtain ⟨base,size,hkind,rfl⟩ := registration_eq hdraw hrt
        obtain ⟨p,hp,hkey,hp_current⟩ := hcurrent base size hkind
        obtain ⟨q,hq,hkey',hid⟩ := hquiet.targets p hp (by rw [hkey]; rfl)
        exact ⟨q,hq,hkey'.trans hkey,by rw [hquiet.current, hp_current, hid]⟩

/-- A packet that is no draw leaves the targets as they are. -/
lemma handle_quiet {p : Packet} (hp : p.draw e.index = none) (h : e.handle T p = some e') :
    Quiet T good e e' := by
  cases p with
  | drawIndexAuto d count => cases hp
  | drawIndex2 d body | drawIndexOffset2 d body =>
    cases body with
    | some b => cases hp
    | none =>
      cases h
      exact .refl e
  | indexType t | indexBase base | indexBufferSize maxSize =>
    cases h
    exact Quiet.congr rfl rfl rfl
  | dmaData src dst len =>
    cases h
    unfold Exec.dmaData
    by_cases hnull : src = 0 ∨ dst = 0 ∨ len = 0
    · rw [if_pos hnull]
      exact .refl e
    · rw [if_neg hnull]
      cases e.read src len with
      | none => exact .refl e
      | some data =>
        dsimp only
        split_ifs
        · exact Quiet.congr rfl rfl rfl
        · exact .refl e
  | acquireMem base size =>
    simp only [Exec.handle, Option.some.injEq] at h
    subst h
    split_ifs
    · exact .refl e
    · have hkeep : ∀ addr size', CacheOp.invalidateRange base size ≠ .freeRange addr size' := by
        intro addr size' heq
        cases heq
      have hquiet : Quiet T good e _ := .op e (.invalidateRange base size) trivial hkeep rfl
      rwa [List.map_nil, List.append_nil] at hquiet

lemma issue_void {now : ℕ} {t : IndexType} {shape : DrawShape} (hvoid : shape.isVoid t)
    (h : e.issue now t shape = some e') : e' = e := by
  cases shape with
  | auto count => cases hvoid
  | indexed base count =>
    have hnull : base = 0 ∨ saturatingMul t.elemSize count = 0 := by simpa [DrawShape.isVoid] using hvoid
    simp only [issue, Exec.drawIndexed, hnull, if_true, Option.some.injEq] at h
    exact h.symm

/-- A draw that is issued counts for the current target. -/
lemma issue_spec {now : ℕ} {t : IndexType} {shape : DrawShape} (hvoid : ¬shape.isVoid t)
    (h : e.issue now t shape = some e') :
    e'.renderTargets = e.renderTargets ∧ e.cache.KeepsTargets e'.cache ∧ ∀ l : TargetLog,
      Tracked T good e.cache (l.feed e.cmds) → Tracked T good e'.cache (l.feed e'.cmds) ∧
        (l.feed e'.cmds).rendered =
          (l.feed e.cmds).current.toList ++ (l.feed e.cmds).rendered := by
  have hdraw {e₁ : Exec} (hquiet : Quiet T good e e₁) {cmd : BackendCmd}
      (hcmd : ∀ l : TargetLog, l.step cmd = { l with
        rendered := l.current.toList ++ l.rendered, current := none }) (l : TargetLog)
      (ht : Tracked T good e.cache (l.feed e.cmds)) :
      Tracked T good e₁.cache (l.feed (e₁.emit cmd).cmds) ∧
        (l.feed (e₁.emit cmd).cmds).rendered =
          (l.feed e.cmds).current.toList ++ (l.feed e.cmds).rendered := by
    have heq : l.feed (e₁.emit cmd).cmds = (l.feed e₁.cmds).step cmd := l.feed_append _ _
    rw [heq, hcmd, ← hquiet.current, ← hquiet.rendered]
    exact ⟨(hquiet.tracked l ht).congr rfl rfl (List.subset_append_right _ _),rfl⟩
  cases shape with
  | auto count =>
    cases h
    exact ⟨rfl,ResourceCache.keepsTargets_of_subset (List.Subset.refl _),
      hdraw (.refl e) fun _ => rfl⟩
  | indexed base count =>
    have hnull : ¬(base = 0 ∨ saturatingMul t.elemSize count = 0) := by
      simpa [DrawShape.isVoid] using hvoid
    simp only [issue, Exec.drawIndexed, hnull, if_false] at h
    obtain ⟨⟨id,e₁⟩,hget,rfl⟩ := Option.map_eq_some_iff.mp h
    have hquiet : Quiet T good e e₁ := fetch_quiet rfl hget
    exact ⟨hquiet.registry,hquiet.targets,hdraw hquiet fun _ => rfl⟩

lemma mem_registerRt {rts : List RegisteredRt} {rt x : RegisteredRt} (h : x ∈ registerRt rts rt) :
    x = rt ∨ x ∈ rts ∧ x.base ≠ rt.base := by
  unfold registerRt at h
  split_ifs at h with hany
  · obtain ⟨y,hy,rfl⟩ := List.mem_map.mp h
    split_ifs with hbase
    · exact .inl rfl
    · exact .inr ⟨hy,hbase⟩
  · rcases List.mem_append.mp h with hx | hx
    · refine .inr ⟨hx,fun hbase => hany ?_⟩
      exact List.any_eq_true.mpr ⟨x,hx,by simpa using hbase⟩
    · exact .inl (List.mem_singleton.mp hx)

/-- The registered targets of a base that is not stale. -/
def Fresh (rts : List RegisteredRt) (stale : List ℕ) (rt : RegisteredRt) : Prop :=
  rt ∈ rts ∧ rt.base ∉ stale

/-- A draw given up on adds no fresh target. -/
lemma fresh_of_void {rts : List RegisteredRt} {stale : List ℕ} {rt x : RegisteredRt}
    (h : Fresh (registerRt rts rt) (if rt ∈ rts then stale else rt.base :: stale) x) :
    Fresh rts stale x := by
  rcases mem_registerRt h.1 with rfl | ⟨hmem,hbase⟩
  · have hold : x ∈ rts := by
      by_contra hnew
      exact h.2 (by simp [hnew])
    exact ⟨hold,by simpa [hold] using h.2⟩
  · refine ⟨hmem,fun hstale => h.2 ?_⟩
    split_ifs
    · exact hstale
    · exact List.mem_cons_of_mem _ hstale

lemma fresh_of_issued {rts : List RegisteredRt} {stale : List ℕ} {rt x : RegisteredRt}
    (h : Fresh (registerRt rts rt) (stale.filter (· ≠ rt.base)) x) : x = rt ∨ Fresh rts stale x := by
  rcases mem_registerRt h.1 with hx | ⟨hmem,hbase⟩
  · exact .inl hx
  · refine .inr ⟨hmem,fun hstale => h.2 ?_⟩
    exact List.mem_filter.mpr ⟨hstale,by simpa using hbase⟩

lemma handle_tracked {p : Packet} {stale : List ℕ} {l : TargetLog} (hfresh : e.SamplesFresh T stale p)
    (h : e.handle T p = some e')
    (ht : Tracked T (Fresh e.renderTargets stale) e.cache (l.feed e.cmds)) :
    Tracked T (Fresh e'.renderTargets (e.staleAfter T stale p)) e'.cache
      (l.feed e'.cmds) := by
  cases hp : p.draw e.index with
  | none =>
    have hquiet : Quiet T (Fresh e.renderTargets stale) e e' := handle_quiet hp h
    simp only [Exec.staleAfter, hp, hquiet.registry]
    exact hquiet.tracked l ht
  | some x =>
    obtain ⟨d,shape⟩ := x
    rw [handle_draw hp] at h
    obtain ⟨⟨e₁,ready⟩,hsetup,h⟩ := Option.bind_eq_some_iff.mp h
    have hsrc : ∀ vs ps, (e.resolveShaders T d.bound).1 = some (vs,ps) → ∀ sb ∈ ps.samplers, ∀ t,
        d.texture sb = some t → ∀ rt, lookupRt e.renderTargets t.base t.byteSpan = some rt →
          Fresh e.renderTargets stale rt := fun vs ps hs sb hsb t hdt rt hlook =>
      ⟨List.mem_of_find?_eq_some hlook,hfresh d shape hp vs ps hs sb hsb t hdt rt hlook⟩
    obtain ⟨ht₁,hregistry,hready⟩ := setupDraw_spec hsrc hsetup ht
    simp only [Exec.staleAfter, hp, hsetup]
    cases ready with
    | false =>
      cases h
      rw [show e'.renderTargets = e.renderTargets from hregistry]
      cases d.registration <;> exact ht₁
    | true =>
      simp only [if_true] at h hregistry
      cases hrt : d.registration with
      | none =>
        have hrts : e₁.renderTargets = e.renderTargets := by rw [hregistry, hrt]; rfl
        by_cases hvoid : shape.isVoid e.index.indexType
        · rw [issue_void hvoid h, hrts]
          exact ht₁
        · obtain ⟨hsame,-,hissue⟩ := issue_spec hvoid h
          rw [hsame, hrts]
          exact (hissue l ht₁).1
      | some rt =>
        have hrts : e₁.renderTargets = registerRt e.renderTargets rt := by rw [hregistry, hrt]; rfl
        by_cases hvoid : shape.isVoid e.index.indexType
        · rw [issue_void hvoid h, hrts]
          simp only [hvoid, if_true]
          exact ht₁.mono fun _ => fresh_of_void
        · obtain ⟨hsame,hkeep,hissue⟩ := issue_spec hvoid h
          obtain ⟨ht',hrendered⟩ := hissue l ht₁
          rw [hsame, hrts]
          simp only [hvoid, Bool.false_eq_true, if_false]
          refine ⟨ht'.history,fun x hx => ?_⟩
          rcases fresh_of_issued hx with rfl | hx
          · obtain ⟨p,hp,hkey,hcurrent⟩ := hready rfl x hrt
            obtain ⟨q,hq,hkey',hid⟩ := hkeep p hp (by rw [hkey]; rfl)
            refine ⟨q,hq,hkey'.trans hkey,?_⟩
            rw [hrendered, hcurrent, hid]
            simp
          · exact ht'.held x hx

lemma walk_tracked {ps : List Packet} {stale : List ℕ} {l : TargetLog}
    (hfresh : e.WalksFresh T stale ps) (h : e.walk T ps = some e')
    (ht : Tracked T (Fresh e.renderTargets stale) e.cache (l.feed e.cmds)) :
    Tracked T (Fresh e'.renderTargets (e.walkStale T stale ps)) e'.cache
      (l.feed e'.cmds) := by
  induction ps generalizing e stale with
  | nil =>
    cases h
    exact ht
  | cons p ps ih =>
    obtain ⟨e₁,hp,hrest⟩ := Option.bind_eq_some_iff.mp h
    simp only [Exec.walkStale, hp]
    exact ih (hfresh.2 e₁ hp) hrest (handle_tracked hfresh.1 hp ht)

end Exec

namespace TargetRun

variable {T : Toolchain} {e : Exec} {l : TargetLog}
  {stale : List ℕ}

lemma tracked (h : TargetRun T (Exec.WalksFresh T) e l stale) :
    Tracked T (Exec.Fresh e.renderTargets stale) e.cache l ∧ e.cmds = [] := by
  induction h with
  | boot bytes readable =>
    refine ⟨⟨⟨[],.new,fun id => ?_,?_⟩,fun rt hrt => ?_⟩,rfl⟩
    · simp [TargetLog.empty, FiledBy]
    · simp [TargetLog.empty]
    · exact absurd hrt.1 List.not_mem_nil
  | @submit e e' l stale packets _ hok hwalk ih =>
    refine ⟨?_,rfl⟩
    have hstart : Tracked T (Exec.Fresh e.renderTargets stale) e.cache
        (TargetLog.feed { l with current := none } e.cmds) := by
      rw [ih.2]
      exact ih.1.congr rfl rfl (List.Subset.refl _)
    have hend := Exec.walk_tracked hok hwalk hstart
    exact hend
  | guest bytes readable _ ih => exact ih
  | dirty ranges _ ih =>
    have hkeep : ∀ addr size, CacheOp.applyDirty ranges ≠ .freeRange addr size := by
      intro addr size heq
      cases heq
    exact ⟨ih.1.op (.applyDirty ranges) trivial hkeep rfl,ih.2⟩
  | @free e l stale addr size _ ih =>
    refine ⟨?_,ih.2⟩
    have hstart : Tracked T (Exec.Fresh e.renderTargets stale) e.cache
        { l with current := none } := ih.1.congr rfl rfl (List.Subset.refl _)
    refine (hstart.freeRange addr size).mono fun rt hrt => ?_
    obtain ⟨hmem,hbase⟩ := hrt
    rw [List.mem_append, not_or] at hbase
    refine ⟨⟨hmem,hbase.2⟩,?_⟩
    rw [Bool.eq_false_iff]
    intro hoverlap
    exact hbase.1 (List.mem_map_of_mem (List.mem_filter.mpr ⟨hmem,hoverlap⟩))
  | rehash _ hperm ih => exact ⟨ih.1.rehash hperm,ih.2⟩

/-- As long as no draw samples a target of a stale base, every render target bound as a texture
was drawn into before. -/
theorem walksFresh_sound (h : TargetRun T (Exec.WalksFresh T) e l stale) : l.Sound :=
  h.tracked.1.sound

/-- The walk of a submission that comes to its end. -/
lemma submitted {ok : Exec → List ℕ → List Packet → Prop} (h : TargetRun T ok e l stale)
    (packets : List Packet) (hok : ok { e with index := .initial } stale packets)
    (hends : (Exec.walk T { e with index := .initial } packets).isSome) :
    TargetRun T ok { (Exec.walk T { e with index := .initial } packets).get hends with cmds := [] }
      (l.feedList ((Exec.walk T { e with index := .initial } packets).get hends).cmds)
      (Exec.walkStale T { e with index := .initial } stale packets) :=
  h.submit packets hok (Option.some_get hends).symm

end TargetRun

/-- A draw to the videoout that samples the target at 0x10000. -/
def sampleDraw : DrawInputs :=
  { Exec.probe 0 with
    bound := ⟨some (.embedded .vertex 0),some (.gcnBinary ⟨0x200,none,[]⟩)⟩
    texture := fun _ => some ⟨0x10000,0x4000,64,64,64,.linear,10,0,
      ⟨.nearest,.nearest,.clampToEdge,.clampToEdge⟩⟩ }

/-- A target freed after it was drawn into is created anew for the draw that samples it; so is
one registered by an indexed draw without an index buffer. -/
theorem not_sound_resampled :
    (∃ e l stale, TargetRun moveTools (fun _ _ _ => True) e l stale ∧
      l.created = [2,1] ∧ l.rendered = [1] ∧ l.early = [2] ∧ ¬l.Sound) ∧
    ∃ e l stale, TargetRun moveTools (fun _ _ _ => True) e l stale ∧
      l.created = [1] ∧ l.rendered = [] ∧ l.early = [1] ∧ ¬l.Sound := by
  have h₀ : TargetRun moveTools (fun _ _ _ => True) _ _ _ := .boot bootExec.bytes bootExec.readable
  refine ⟨?_,?_⟩
  · have h₁ := h₀.submitted [.drawIndexAuto offscreenDraw 3] trivial (by decide +kernel)
    have h₂ := (h₁.free 0x10000 0x4000).submitted [.drawIndexAuto sampleDraw 3] trivial
      (by decide +kernel)
    refine ⟨_,_,_,h₂,by decide +kernel,by decide +kernel,by decide +kernel,fun hsound => ?_⟩
    exact hsound 2 (by decide +kernel) (by decide +kernel)
  · have h₁ := h₀.submitted [.drawIndex2 offscreenDraw (some (0,0,3))] trivial (by decide +kernel)
    have h₂ := h₁.submitted [.drawIndexAuto sampleDraw 3] trivial (by decide +kernel)
    refine ⟨_,_,_,h₂,by decide +kernel,by decide +kernel,by decide +kernel,fun hsound => ?_⟩
    exact hsound 1 (by decide +kernel) (by decide +kernel)

/-- A packet without samplers samples nothing stale. -/
lemma samplesFresh_offscreen (T : Toolchain) (e : Exec) (stale : List ℕ) (count : ℕ) :
    e.SamplesFresh T stale (.drawIndexAuto offscreenDraw count) := by
  rintro d shape ⟨⟩ vs ps ⟨⟩ sb hsb
  exact absurd hsb List.not_mem_nil

/-- A target that is freed and drawn into again may be sampled again. -/
theorem walksFresh_sound_redrawn :
    ∃ e l stale, TargetRun moveTools (Exec.WalksFresh moveTools) e l stale ∧
      l.created = [3,1] ∧ l.rendered = [3,1] ∧ l.Sound := by
  have h₀ : TargetRun moveTools (Exec.WalksFresh moveTools) _ _ _ :=
    .boot bootExec.bytes bootExec.readable
  have hpair (e : Exec) (stale : List ℕ) (hempty : e.staleAfter moveTools stale
      (.drawIndexAuto offscreenDraw 3) = []) : e.WalksFresh moveTools stale
        [.drawIndexAuto offscreenDraw 3,.drawIndexAuto sampleDraw 3] := by
    refine ⟨samplesFresh_offscreen _ e stale 3,fun e' _ => ⟨?_,fun _ _ => trivial⟩⟩
    rw [hempty]
    exact fun _ _ _ _ _ _ _ _ _ _ _ _ => List.not_mem_nil
  have h₁ := h₀.submitted [.drawIndexAuto offscreenDraw 3,.drawIndexAuto sampleDraw 3]
    (hpair _ _ (by decide +kernel)) (by decide +kernel)
  have h₂ := (h₁.free 0x10000 0x4000).submitted
    [.drawIndexAuto offscreenDraw 3,.drawIndexAuto sampleDraw 3] (hpair _ _ (by decide +kernel))
    (by decide +kernel)
  exact ⟨_,_,_,h₂,by decide +kernel,by decide +kernel,h₂.walksFresh_sound⟩

end Unemups4.Gnm
