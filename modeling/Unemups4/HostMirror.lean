import Unemups4.HostMaps

/-! The backend's maps against the cache: what an operation adds to the cache it also had
created in the map its binds look in, and what it frees is in the maps a free looks in. -/
namespace Unemups4.Gnm
open Lifetime

def isTexture : ResLayout → Bool
  | .texture _ _ => true
  | _ => false

def isRenderTarget : ResLayout → Bool
  | .renderTarget _ _ => true
  | _ => false

/-- The map that holds the object of an entry. -/
def homeOf (p : ResourceKey × Entry) : HostMap :=
  match p.1.layout with
  | .vertexBuf | .indexBuf | .constBuf => if p.2.imported then .imported else .resources
  | .texture _ _ => .images
  | .renderTarget _ _ => .renderTargets

lemma homeOf_linear {p : ResourceKey × Entry} (h : isLinearBuffer p.1.layout) :
    homeOf p = if p.2.imported then .imported else .resources := by
  unfold homeOf
  cases hl : p.1.layout <;> simp_all [isLinearBuffer]

lemma homeOf_texture {p : ResourceKey × Entry} : isTexture p.1.layout ↔ homeOf p = .images := by
  unfold homeOf
  cases hl : p.1.layout <;> simp [isTexture] <;> split_ifs <;> simp

lemma homeOf_renderTarget {p : ResourceKey × Entry} :
    isRenderTarget p.1.layout ↔ homeOf p = .renderTargets := by
  unfold homeOf
  cases hl : p.1.layout <;> simp [isRenderTarget] <;> split_ifs <;> simp

/-- The commands file an object in this map under this id. -/
def FiledBy (cmds : List ResourceCmd) (m : HostMap) (id : ℕ) : Prop :=
  ∃ cmd ∈ cmds, ∃ o, cmd.files = some (m,id,o)

lemma FiledBy.mono {a b : List ResourceCmd} {m : HostMap} {id : ℕ} (h : FiledBy a m id)
    (hsub : a ⊆ b) : FiledBy b m id := by
  obtain ⟨cmd,hcmd,hfiles⟩ := h
  exact ⟨cmd,hsub hcmd,hfiles⟩

namespace ResourceCache

/-- Every entry, sampler and dummy of `d` was in `c` or was created on the way. -/
structure Grows (c : ResourceCache) (out : List ResourceCmd) (d : ResourceCache) : Prop where
  entries : ∀ p ∈ d.entries,
    (∃ q ∈ c.entries, q.2.id = p.2.id ∧ homeOf q = homeOf p) ∨ FiledBy out (homeOf p) p.2.id
  samplers : ∀ s ∈ d.samplers, s ∈ c.samplers ∨ .createSampler s.2 s.1 ∈ out
  dummy : ∀ id ∈ d.whiteDummy, id ∈ c.whiteDummy ∨ FiledBy out .images id

/-- Everything freed belonged to an entry whose map a free looks in. -/
def Sheds (c : ResourceCache) (out : List ResourceCmd) : Prop :=
  ∀ id, .freeResource id ∈ out → ∃ p ∈ c.entries, p.2.id = id ∧ homeOf p ≠ .images

lemma Grows.trans {c d e : ResourceCache} {a b : List ResourceCmd} (h : c.Grows a d)
    (h' : d.Grows b e) : c.Grows (a ++ b) e := by
  have hleft : a ⊆ a ++ b := List.subset_append_left a b
  have hright : b ⊆ a ++ b := List.subset_append_right a b
  refine ⟨fun p hp => ?_,fun s hs => ?_,fun id hid => ?_⟩
  · rcases h'.entries p hp with ⟨q,hq,hid,hhome⟩ | hfiled
    · rcases h.entries q hq with ⟨r,hr,hid',hhome'⟩ | hfiled
      · exact .inl ⟨r,hr,hid'.trans hid,hhome'.trans hhome⟩
      · rw [hid, hhome] at hfiled
        exact .inr (hfiled.mono hleft)
    · exact .inr (hfiled.mono hright)
  · rcases h'.samplers s hs with hs | hnew
    · exact (h.samplers s hs).imp_right fun hnew => hleft hnew
    · exact .inr (hright hnew)
  · rcases h'.dummy id hid with hid | hnew
    · exact (h.dummy id hid).imp_right fun hnew => hnew.mono hleft
    · exact .inr (hnew.mono hright)

/-- A step that keeps samplers and the dummy, and every entry up to its bookkeeping. -/
lemma grows_nil {c d : ResourceCache}
    (hentries : ∀ p ∈ d.entries, ∃ q ∈ c.entries, q.2.id = p.2.id ∧ homeOf q = homeOf p)
    (hsamplers : d.samplers = c.samplers) (hdummy : d.whiteDummy = c.whiteDummy) :
    c.Grows [] d :=
  ⟨fun p hp => .inl (hentries p hp),fun _ hs => .inl (hsamplers ▸ hs),
    fun _ hid => .inl (hdummy ▸ hid)⟩

lemma grows_refl (c : ResourceCache) : c.Grows [] c :=
  grows_nil (fun p hp => ⟨p,hp,rfl,rfl⟩) rfl rfl

/-- More commands only help. -/
lemma Grows.weaken {c d : ResourceCache} {a b : List ResourceCmd} (h : c.Grows a d) (hsub : a ⊆ b) :
    c.Grows b d :=
  ⟨fun p hp => (h.entries p hp).imp_right fun hf => hf.mono hsub,
    fun s hs => (h.samplers s hs).imp_right fun hnew => hsub hnew,
    fun id hid => (h.dummy id hid).imp_right fun hf => hf.mono hsub⟩

/-- The updates of an entry in place keep what it is. -/
lemma modify_grows (c : ResourceCache) (key : ResourceKey) {f : Entry → Entry}
    (hid : ∀ e, (f e).id = e.id) (himp : ∀ e, (f e).imported = e.imported) :
    c.Grows [] (c.modify key f) := by
  refine grows_nil (fun p hp => ?_) rfl rfl
  obtain ⟨q,hq,rfl⟩ := List.mem_map.mp hp
  refine ⟨q,hq,?_⟩
  split_ifs
  · simp [homeOf, hid, himp]
  · simp

lemma markDirty_grows (c : ResourceCache) (hit : ResourceKey → Bool) :
    c.Grows [] (c.markDirty hit) := by
  refine grows_nil (fun p hp => ?_) rfl rfl
  obtain ⟨q,hq,rfl⟩ := List.mem_map.mp hp
  refine ⟨q,hq,?_⟩
  split_ifs <;> simp [homeOf]

lemma remove_grows (c : ResourceCache) (key : ResourceKey) (bytes : ℕ) :
    c.Grows [] { c.remove key with bufferBytes := bytes } :=
  grows_nil (fun p hp => ⟨p,List.mem_of_mem_filter hp,rfl,rfl⟩) rfl rfl

lemma insert_grows (c : ResourceCache) {key : ResourceKey} {entry : Entry} {cmd : ResourceCmd}
    {o : HostObject} (next bytes : ℕ) (hcmd : cmd.files = some (homeOf (key,entry),entry.id,o)) :
    c.Grows [cmd]
      { c with nextId := next, entries := (key,entry) :: c.entries, bufferBytes := bytes } := by
  refine ⟨fun p hp => ?_,fun _ hs => .inl hs,fun _ hid => .inl hid⟩
  rcases List.mem_cons.mp hp with rfl | hp
  · exact .inr ⟨cmd,by simp,o,hcmd⟩
  · exact .inl ⟨p,hp,rfl,rfl⟩

lemma Frees.grows {c d : ResourceCache} {keys : List ResourceKey} {cmds : List ResourceCmd}
    (h : Frees keys c cmds d) : c.Grows cmds d := by
  induction h with
  | none c => exact c.grows_refl
  | @drop c d cmds key entry bytes _ _ _ ih =>
    exact ((c.remove_grows key bytes).trans ih).weaken (List.subset_cons_self _ _)

lemma trim_grows (c : ResourceCache) (now : ℕ) : c.Grows (c.trim now).2 (c.trim now).1 := by
  have htouch : c.Grows [] { c with trimmedFlip := now } :=
    grows_nil (fun p hp => ⟨p,hp,rfl,rfl⟩) rfl rfl
  unfold trim
  dsimp only
  split_ifs
  · exact c.grows_refl
  · exact htouch
  · exact htouch.trans (evict_frees _ _).grows

/-- Only linear buffers are trimmed. -/
lemma trim_sheds (c : ResourceCache) (now : ℕ) : c.Sheds (c.trim now).2 := by
  intro id h
  unfold trim at h
  dsimp only at h
  split_ifs at h
  · simp at h
  · simp at h
  · obtain ⟨p,hp,hkey,heq⟩ := (evict_frees _ _).named _ h
    cases heq
    refine ⟨p,hp,rfl,fun himage => ?_⟩
    obtain ⟨q,hq,heq⟩ := List.mem_map.mp hkey
    have hq := List.mem_filter.mp ((List.perm_insertionSort _ _).mem_iff.mp hq)
    have htexture := homeOf_texture.mpr himage
    rw [← heq] at htexture
    cases hl : q.1.layout <;> simp_all [isLinearBuffer, isTexture]

/-- A first use of the recipe is filed where the entry it records belongs. -/
def Recipe.FilesAt (r : Recipe) (key : ResourceKey) : Prop :=
  ∀ id e, e.imported = r.imported → ∃ o, (r.create id).files = some (homeOf (key,e),id,o)

lemma Reads.grows {c d : ResourceCache} {key : ResourceKey} {r : Recipe} (hr : r.FilesAt key)
    {a : Acquired} {cmds : List ResourceCmd} (h : Reads c key r a d cmds) :
    c.Grows cmds (d.acquireFinish key r a).1 := by
  have htouch : c.Grows [] (c.touch key) := c.modify_grows key (fun _ => rfl) fun _ => rfl
  have hnew (e : Entry) (hid : e.id = c.nextId) (himp : e.imported = r.imported) (bytes : ℕ) :
      c.Grows [r.create c.nextId]
        { c with nextId := c.nextId+1, entries := (key,e) :: c.entries, bufferBytes := bytes } := by
    obtain ⟨o,ho⟩ := hr c.nextId e himp
    refine c.insert_grows (o := o) _ _ ?_
    rw [hid]
    exact ho
  cases h with
  | clean => exact htouch
  | unreadable => exact htouch
  | reupload =>
    have hclear := htouch.trans ((c.touch key).modify_grows key
      (show ∀ e : Entry, { e with dirty := false : Entry }.id = e.id from fun _ => rfl)
      fun _ => rfl)
    exact hclear.weaken (List.nil_subset _)
  | imported _ himp => exact hnew _ rfl himp.symm _
  | filled _ himp => exact (hnew _ rfl (by simpa using himp) _).weaken (by simp)
  | unfilled _ himp => exact hnew _ rfl (by simpa using himp) _

/-- The commands of a lookup are those of its recipe. -/
lemma Reads.mem {c d : ResourceCache} {key : ResourceKey} {r : Recipe} {a : Acquired}
    {cmds : List ResourceCmd} (h : Reads c key r a d cmds) {cmd : ResourceCmd} (hcmd : cmd ∈ cmds) :
    (∃ id, cmd = r.create id) ∨ ∃ id, r.upload id = some cmd := by
  cases h with
  | clean | unreadable => simp at hcmd
  | reupload _ _ hup =>
    rw [List.mem_singleton] at hcmd
    exact .inr ⟨_,hcmd ▸ hup⟩
  | imported | unfilled =>
    rw [List.mem_singleton] at hcmd
    exact .inl ⟨_,hcmd⟩
  | filled _ _ hup =>
    rcases List.mem_cons.mp hcmd with hcmd | hcmd
    · exact .inl ⟨_,hcmd⟩
    · rw [List.mem_singleton] at hcmd
      exact .inr ⟨_,hcmd ▸ hup⟩

lemma acquire_grows {c d : ResourceCache} {now id : ℕ} {key : ResourceKey} {r : Recipe}
    (hr : r.Lawful) (hfiles : r.FilesAt key) {cmds : List ResourceCmd} {ws : List WatchOp}
    (h : c.acquire now key r = some (id,d,cmds,ws)) :
    c.Grows cmds d ∧ c.Sheds cmds ∧
      ∀ cmd ∈ cmds, (∃ x, cmd = .freeResource x) ∨ (∃ x, cmd = r.create x) ∨
        ∃ x, cmd.event = .use x := by
  unfold acquire at h
  cases hread : c.acquireRead now key r with
  | none => simp [hread] at h
  | some t =>
    obtain ⟨a,e,out⟩ := t
    simp only [hread, Option.some.injEq] at h
    obtain ⟨cmds',hreads,rfl⟩ := acquireRead_reads hread
    cases h
    refine ⟨(c.trim_grows now).trans (hreads.grows hfiles),fun x hx => ?_,fun cmd hcmd => ?_⟩
    · rcases List.mem_append.mp hx with hx | hx
      · exact c.trim_sheds now x hx
      · rcases hreads.mem hx with ⟨y,heq⟩ | ⟨y,hup⟩
        · have hev := hr.create y
          rw [← heq] at hev
          cases hev
        · cases hr.upload y _ hup
    · rcases List.mem_append.mp hcmd with hcmd | hcmd
      · exact .inl ((trim_frees _ _).2 _ hcmd)
      · exact .inr ((hreads.mem hcmd).imp_right fun ⟨y,hup⟩ => ⟨y,hr.upload y cmd hup⟩)

lemma bufferRecipe_filesAt (pol : CachePolicy) (read : ℕ → ℕ → Option Bytes) {key : ResourceKey}
    (h : isLinearBuffer key.layout) : (bufferRecipe pol read key).FilesAt key := by
  intro id e himp
  rw [homeOf_linear h]
  simp only [bufferRecipe] at himp ⊢
  rw [himp]
  split_ifs <;> exact ⟨_,rfl⟩

lemma textureRecipe_filesAt (detile : Bytes → SurfaceLayout → Option Bytes)
    (read : ℕ → ℕ → Option Bytes) {key : ResourceKey} (surface : SurfaceLayout)
    (format : TextureFormat) (h : isTexture key.layout) :
    (textureRecipe detile read key surface format).FilesAt key := by
  intro id e _
  have hhome : homeOf (key,e) = .images := homeOf_texture.mp h
  rw [hhome]
  exact ⟨_,rfl⟩

lemma getRenderTarget_grows {c d : ResourceCache} {key : ResourceKey} {surface : SurfaceLayout}
    {format : ColorFormat} {id : ℕ} {cmds : List ResourceCmd} (hkey : isRenderTarget key.layout)
    (h : c.getRenderTarget key surface format = some (id,d,cmds)) :
    c.Grows cmds d ∧ c.Sheds cmds ∧ ∀ x, ¬FiledBy cmds .imported x := by
  obtain ⟨_,-,rfl,rfl,rfl⟩ | ⟨-,rfl,rfl,rfl⟩ := getRenderTarget_eq_some h
  · exact ⟨c.modify_grows key (fun _ => rfl) fun _ => rfl,by simp [Sheds],by simp [FiledBy]⟩
  · refine ⟨c.insert_grows (o := .target surface.width surface.height format) _ _ ?_,
      by simp [Sheds],by simp [FiledBy, ResourceCmd.files]⟩
    have hhome (e : Entry) : homeOf (key,e) = .renderTargets := homeOf_renderTarget.mp hkey
    rw [hhome]
    rfl

lemma getSampler_grows {c d : ResourceCache} {desc : SamplerDesc} {id : ℕ}
    {cmds : List ResourceCmd} (h : c.getSampler desc = some (id,d,cmds)) :
    c.Grows cmds d ∧ c.Sheds cmds ∧ ∀ x, ¬FiledBy cmds .imported x := by
  obtain ⟨-,rfl,rfl⟩ | ⟨-,rfl,rfl,rfl⟩ := getSampler_eq_some h
  · exact ⟨c.grows_refl,by simp [Sheds],by simp [FiledBy]⟩
  · refine ⟨⟨fun p hp => .inl ⟨p,hp,rfl,rfl⟩,fun s hs => ?_,fun _ hid => .inl hid⟩,
      by simp [Sheds],by simp [FiledBy, ResourceCmd.files]⟩
    rcases List.mem_cons.mp hs with rfl | hs
    · exact .inr (by simp)
    · exact .inl hs

lemma getWhiteDummy_grows {c d : ResourceCache} {id : ℕ} {cmds : List ResourceCmd}
    (h : c.getWhiteDummy = some (id,d,cmds)) :
    c.Grows cmds d ∧ c.Sheds cmds ∧ ∀ x, ¬FiledBy cmds .imported x := by
  obtain ⟨-,rfl,rfl⟩ | ⟨-,rfl,rfl,rfl⟩ := getWhiteDummy_eq_some h
  · exact ⟨c.grows_refl,by simp [Sheds],by simp [FiledBy]⟩
  · refine ⟨⟨fun p hp => .inl ⟨p,hp,rfl,rfl⟩,fun _ hs => .inl hs,fun x hx => .inr ?_⟩,
      by simp [Sheds],by simp [FiledBy, ResourceCmd.files]⟩
    cases hx
    exact ⟨_,List.mem_cons_self,_,rfl⟩

end ResourceCache

/-- The layouts the callers ask for: buffers through `get`, textures through `get_texture`,
render targets through `get_render_target`. -/
def CacheOp.Typed : CacheOp → Prop
  | .get _ _ key => isLinearBuffer key.layout
  | .getTexture _ _ key _ _ => isTexture key.layout
  | .getRenderTarget key _ _ => isRenderTarget key.layout
  | .getSampler _ | .getWhiteDummy | .trim _ | .applyDirty _ | .invalidateRange _ _
  | .freeRange _ _ => True

/-- No texture lies in a freed range. -/
def CacheOp.SparesTextures (c : ResourceCache) : CacheOp → Prop
  | .freeRange addr size => ∀ p ∈ c.entries, rangesOverlap p.1.addr p.1.size addr size →
      isTexture p.1.layout = false
  | _ => True

/-- The range of a buffer lookup is not one the probe promises to import. -/
def CacheOp.Copies (pol : CachePolicy) : CacheOp → Prop
  | .get _ _ key => ResourceCache.importable pol key = false
  | _ => True

section

variable {pol : CachePolicy} {detile : Bytes → SurfaceLayout → Option Bytes}

lemma CacheOp.apply_grows {c d : ResourceCache} {out : List ResourceCmd} {op : CacheOp}
    (htyped : op.Typed) (h : op.apply pol detile c = some (d,out)) :
    c.Grows out d ∧ (op.SparesTextures c → c.Sheds out) := by
  cases op with
  | get now read key =>
    obtain ⟨r,hr,heq⟩ := Option.map_eq_some_iff.mp h
    cases heq
    obtain ⟨hgrows,hsheds,-⟩ := ResourceCache.acquire_grows
      (ResourceCache.bufferRecipe_lawful pol read key)
      (ResourceCache.bufferRecipe_filesAt pol read htyped) hr
    exact ⟨hgrows,fun _ => hsheds⟩
  | getTexture now read key surface format =>
    obtain ⟨r,hr,heq⟩ := Option.map_eq_some_iff.mp h
    cases heq
    obtain ⟨hgrows,hsheds,-⟩ := ResourceCache.acquire_grows
      (ResourceCache.textureRecipe_lawful detile read key surface format)
      (ResourceCache.textureRecipe_filesAt detile read surface format htyped) hr
    exact ⟨hgrows,fun _ => hsheds⟩
  | getRenderTarget key surface format =>
    obtain ⟨⟨id,r⟩,hr,rfl⟩ := Option.map_eq_some_iff.mp h
    obtain ⟨hgrows,hsheds,-⟩ := ResourceCache.getRenderTarget_grows htyped hr
    exact ⟨hgrows,fun _ => hsheds⟩
  | getSampler desc =>
    obtain ⟨⟨id,r⟩,hr,rfl⟩ := Option.map_eq_some_iff.mp h
    obtain ⟨hgrows,hsheds,-⟩ := ResourceCache.getSampler_grows hr
    exact ⟨hgrows,fun _ => hsheds⟩
  | getWhiteDummy =>
    obtain ⟨⟨id,r⟩,hr,rfl⟩ := Option.map_eq_some_iff.mp h
    obtain ⟨hgrows,hsheds,-⟩ := ResourceCache.getWhiteDummy_grows hr
    exact ⟨hgrows,fun _ => hsheds⟩
  | trim now =>
    have heq := Option.some.inj h
    have hgrows := c.trim_grows now
    have hsheds := c.trim_sheds now
    rw [heq] at hgrows hsheds
    exact ⟨hgrows,fun _ => hsheds⟩
  | applyDirty dirtied =>
    cases h
    exact ⟨c.markDirty_grows _,fun _ => by simp [ResourceCache.Sheds]⟩
  | invalidateRange addr size =>
    cases h
    exact ⟨c.markDirty_grows _,fun _ => by simp [ResourceCache.Sheds]⟩
  | freeRange addr size =>
    cases h
    refine ⟨(c.freeKeys_frees _).grows,fun hspares id hid => ?_⟩
    obtain ⟨p,hp,hkey,heq⟩ := (c.freeKeys_frees _).named _ hid
    cases heq
    obtain ⟨-,hoverlap⟩ := List.mem_filter.mp hkey
    refine ⟨p,hp,rfl,fun himage => ?_⟩
    have htexture := homeOf_texture.mpr himage
    rw [hspares p hp hoverlap] at htexture
    cases htexture

/-- An operation that does not look up an importable range imports nothing. -/
lemma CacheOp.apply_copies {c d : ResourceCache} {out : List ResourceCmd} {op : CacheOp}
    (htyped : op.Typed) (hcopies : op.Copies pol) (h : op.apply pol detile c = some (d,out))
    (id : ℕ) : ¬FiledBy out .imported id := by
  rintro ⟨cmd,hcmd,o,hfiles⟩
  have hfree {x : ℕ} : cmd ≠ .freeResource x := by
    rintro rfl
    cases hfiles
  have huse {x : ℕ} : cmd.event ≠ .use x := by
    rw [ResourceCmd.files_event hfiles]
    nofun
  cases op with
  | get now read key =>
    obtain ⟨r,hr,heq⟩ := Option.map_eq_some_iff.mp h
    cases heq
    obtain ⟨-,-,hmem⟩ := ResourceCache.acquire_grows
      (ResourceCache.bufferRecipe_lawful pol read key)
      (ResourceCache.bufferRecipe_filesAt pol read htyped) hr
    rcases hmem cmd hcmd with ⟨x,hx⟩ | ⟨x,rfl⟩ | ⟨x,hx⟩
    · exact hfree hx
    · have himp : ResourceCache.importable pol key = false := hcopies
      simp [ResourceCache.bufferRecipe, himp, ResourceCmd.files] at hfiles
    · exact huse hx
  | getTexture now read key surface format =>
    obtain ⟨r,hr,heq⟩ := Option.map_eq_some_iff.mp h
    cases heq
    obtain ⟨-,-,hmem⟩ := ResourceCache.acquire_grows
      (ResourceCache.textureRecipe_lawful detile read key surface format)
      (ResourceCache.textureRecipe_filesAt detile read surface format htyped) hr
    rcases hmem cmd hcmd with ⟨x,hx⟩ | ⟨x,rfl⟩ | ⟨x,hx⟩
    · exact hfree hx
    · simp [ResourceCache.textureRecipe, ResourceCmd.files] at hfiles
    · exact huse hx
  | getRenderTarget key surface format =>
    obtain ⟨⟨x,r⟩,hr,rfl⟩ := Option.map_eq_some_iff.mp h
    exact (ResourceCache.getRenderTarget_grows htyped hr).2.2 id ⟨cmd,hcmd,o,hfiles⟩
  | getSampler desc =>
    obtain ⟨⟨x,r⟩,hr,rfl⟩ := Option.map_eq_some_iff.mp h
    exact (ResourceCache.getSampler_grows hr).2.2 id ⟨cmd,hcmd,o,hfiles⟩
  | getWhiteDummy =>
    obtain ⟨⟨x,r⟩,hr,rfl⟩ := Option.map_eq_some_iff.mp h
    exact (ResourceCache.getWhiteDummy_grows hr).2.2 id ⟨cmd,hcmd,o,hfiles⟩
  | trim now =>
    have heq := Option.some.inj h
    have hout : (c.trim now).2 = out := congrArg Prod.snd heq
    obtain ⟨x,hx⟩ := (trim_frees _ _).2 cmd (hout ▸ hcmd)
    exact hfree hx
  | applyDirty dirtied =>
    cases h
    simp at hcmd
  | invalidateRange addr size =>
    cases h
    simp at hcmd
  | freeRange addr size =>
    cases h
    obtain ⟨p,-,-,hx⟩ := (ResourceCache.freeKeys_frees _ _).named _ hcmd
    exact hfree hx

variable (pol detile) (ok : ResourceCache → CacheOp → Prop)

/-- A run of the cache whose operations ask for the layouts they are meant for and meet the
condition, with all the commands it emitted. -/
inductive TypedRun : ResourceCache → List ResourceCmd → Prop
  | new : TypedRun .new []
  | step {c d : ResourceCache} {cmds out : List ResourceCmd} (op : CacheOp) :
      TypedRun c cmds → op.Typed → ok c op → op.apply pol detile c = some (d,out) →
      TypedRun d (cmds ++ out)
  | rehash {c : ResourceCache} {cmds : List ResourceCmd} {entries : List (ResourceKey × Entry)} :
      TypedRun c cmds → entries.Perm c.entries → TypedRun { c with entries := entries } cmds

variable {pol detile ok}

namespace TypedRun

variable {c : ResourceCache} {cmds : List ResourceCmd}

lemma cacheRun (h : TypedRun pol detile ok c cmds) : CacheRun pol detile c cmds := by
  induction h with
  | new => exact .new
  | step op _ _ _ hop ih => exact .step op ih hop
  | rehash _ hperm ih => exact .rehash ih hperm

lemma grows (h : TypedRun pol detile ok c cmds) : ResourceCache.new.Grows cmds c := by
  induction h with
  | new => exact ResourceCache.grows_refl _
  | step op _ htyped _ hop ih => exact ih.trans (CacheOp.apply_grows htyped hop).1
  | rehash _ hperm ih =>
    exact ⟨fun p hp => ih.entries p (hperm.mem_iff.mp hp),ih.samplers,ih.dummy⟩

lemma filed (h : TypedRun pol detile ok c cmds) {p : ResourceKey × Entry} (hp : p ∈ c.entries) :
    FiledBy cmds (homeOf p) p.2.id := by
  rcases h.grows.entries p hp with ⟨q,hq,-⟩ | hfiled
  · simp [ResourceCache.new] at hq
  · exact hfiled

lemma filed_dummy (h : TypedRun pol detile ok c cmds) {id : ℕ} (hid : c.whiteDummy = some id) :
    FiledBy cmds .images id := by
  rcases h.grows.dummy id hid with hnew | hfiled
  · simp [ResourceCache.new] at hnew
  · exact hfiled

lemma not_filed_sampler (h : TypedRun pol detile ok c cmds) {s : SamplerDesc × ℕ}
    (hs : s ∈ c.samplers) : .createSampler s.2 s.1 ∈ cmds := by
  rcases h.grows.samplers s hs with hnew | hcreate
  · simp [ResourceCache.new] at hnew
  · exact hcreate

/-- When no freed range held a texture, everything freed is in a map that a free looks in. -/
lemma freed_home (h : TypedRun pol detile ok c cmds) (hok : ∀ c op, ok c op → op.SparesTextures c)
    {id : ℕ} (hid : .freeResource id ∈ cmds) : ∃ m, m ≠ .images ∧ FiledBy cmds m id := by
  induction h with
  | new => simp at hid
  | @step c d cmds out op hrun htyped hop happly ih =>
    rcases List.mem_append.mp hid with hid | hid
    · obtain ⟨m,hm,hfiled⟩ := ih hid
      exact ⟨m,hm,hfiled.mono (List.subset_append_left _ _)⟩
    · obtain ⟨p,hp,rfl,hhome⟩ := (CacheOp.apply_grows htyped happly).2 (hok c op hop) id hid
      exact ⟨homeOf p,hhome,(hrun.filed hp).mono (List.subset_append_left _ _)⟩
  | rehash _ _ ih => exact ih hid

/-- When no importable range was looked up, nothing is imported. -/
lemma not_imported (h : TypedRun pol detile ok c cmds) (hok : ∀ c op, ok c op → op.Copies pol)
    (id : ℕ) : ¬FiledBy cmds .imported id := by
  induction h with
  | new => simp [FiledBy]
  | @step c d cmds out op _ htyped hop happly ih =>
    rintro ⟨cmd,hcmd,hfiles⟩
    rcases List.mem_append.mp hcmd with hcmd | hcmd
    · exact ih ⟨cmd,hcmd,hfiles⟩
    · exact CacheOp.apply_copies htyped (hok c op hop) happly id ⟨cmd,hcmd,hfiles⟩
  | rehash _ _ ih => exact ih

end TypedRun

end

/-- The object the commands made for an id. -/
def Made (cmds : List ResourceCmd) (id : ℕ) (o : HostObject) : Prop :=
  ∃ cmd ∈ cmds, ∃ m, cmd.files = some (m,id,o)

/-- The backend holds exactly the ids of the live entries and of the dummy, and the binds
that name one of them find its object. -/
structure Mirrors (c : ResourceCache) (cmds : List ResourceCmd) (h : Host) : Prop where
  ids : ∀ id, h.Holds id ↔ (∃ p ∈ c.entries, p.2.id = id) ∨ c.whiteDummy = some id
  buffers : ∀ p ∈ c.entries, isLinearBuffer p.1.layout →
    ∃ o, h.bindBuffer p.2.id = some o ∧ Made cmds p.2.id o
  textures : ∀ p ∈ c.entries, isTexture p.1.layout →
    ∃ o, h.bindTexture p.2.id = some o ∧ Made cmds p.2.id o
  targets : ∀ p ∈ c.entries, isRenderTarget p.1.layout →
    ∃ o, h.setRenderTarget p.2.id = some o ∧ h.bindTexture p.2.id = some o ∧ Made cmds p.2.id o
  dummy : ∀ id, c.whiteDummy = some id → ∃ o, h.bindTexture id = some o ∧ Made cmds id o

lemma eq_of_nodup_filterMap {α β : Type} {f : α → Option β} {l : List α}
    (h : (l.filterMap f).Nodup) {a b : α} (ha : a ∈ l) (hb : b ∈ l) {x : β} (hfa : f a = some x)
    (hfb : f b = some x) : a = b := by
  induction l with
  | nil => simp at ha
  | cons y l ih =>
    have hrest : (l.filterMap f).Nodup := h.sublist ((List.sublist_cons_self y l).filterMap f)
    have hhead (z : α) (hz : z ∈ l) (hfz : f z = some x) : f y ≠ some x := by
      intro hfy
      rw [List.filterMap_cons_some hfy, List.nodup_cons] at h
      exact h.1 (List.mem_filterMap.mpr ⟨z,hz,hfz⟩)
    rcases List.mem_cons.mp ha with rfl | ha'
    · rcases List.mem_cons.mp hb with rfl | hb'
      · rfl
      · exact absurd hfa (hhead b hb' hfb)
    · rcases List.mem_cons.mp hb with rfl | hb'
      · exact absurd hfb (hhead a ha' hfa)
      · exact ih hrest ha' hb'

namespace TypedRun

variable {pol : CachePolicy} {detile : Bytes → SurfaceLayout → Option Bytes}
  {ok : ResourceCache → CacheOp → Prop} {c : ResourceCache} {cmds : List ResourceCmd}

/-- An id is created by one command only. -/
lemma create_unique (h : TypedRun pol detile ok c cmds) {a b : ResourceCmd} (ha : a ∈ cmds)
    (hb : b ∈ cmds) {id : ℕ} (hea : a.event = .create id) (heb : b.event = .create id) : a = b := by
  have hnodup : (createdIds cmds).Nodup :=
    (cacheRun_disciplined pol detile h.cacheRun).increasing.imp fun hlt => hlt.ne
  rw [createdIds, created, List.filterMap_map] at hnodup
  exact eq_of_nodup_filterMap hnodup ha hb (x := id) (by simp [hea]) (by simp [heb])

lemma held_iff (h : TypedRun pol detile ok c cmds) (m : HostMap) (id : ℕ) (o : HostObject) :
    (Host.empty.replay cmds).held m id = some o ↔
      (∃ cmd ∈ cmds, cmd.files = some (m,id,o)) ∧ ¬(m.isFreed ∧ .freeResource id ∈ cmds) := by
  obtain ⟨_,hf⟩ := h.cacheRun.emits new_wellFormed
  have hheld := Host.replay_held hf (show Host.empty.Fresh _ from fun _ _ _ => rfl) m id o
  simpa using hheld

lemma not_freed (h : TypedRun pol detile ok c cmds) {id : ℕ} (hlive : id ∈ c.liveIds) :
    .freeResource id ∉ cmds := by
  intro hfree
  refine (((cacheRun_disciplined pol detile h.cacheRun).live id).mp hlive).2 ?_
  exact List.mem_filterMap.mpr ⟨.free id,List.mem_map_of_mem hfree,rfl⟩

/-- A live id is held where its object was filed, and nowhere else. -/
lemma held_of_filed (h : TypedRun pol detile ok c cmds) {m : HostMap} {id : ℕ}
    (hlive : id ∈ c.liveIds) (hfiled : FiledBy cmds m id) :
    ∃ o, (Host.empty.replay cmds).held m id = some o ∧ Made cmds id o ∧
      ∀ k ≠ m, (Host.empty.replay cmds).held k id = none := by
  obtain ⟨cmd,hcmd,o,hfiles⟩ := hfiled
  have hheld := (h.held_iff m id o).mpr ⟨⟨cmd,hcmd,hfiles⟩,fun hf => h.not_freed hlive hf.2⟩
  refine ⟨o,hheld,⟨cmd,hcmd,m,hfiles⟩,fun k hk => ?_⟩
  refine Option.eq_none_iff_forall_ne_some.mpr fun o' ho' => hk ?_
  obtain ⟨⟨cmd',hcmd',hfiles'⟩,-⟩ := (h.held_iff k id o').mp ho'
  obtain rfl := h.create_unique hcmd hcmd' (ResourceCmd.files_event hfiles)
    (ResourceCmd.files_event hfiles')
  rw [hfiles] at hfiles'
  cases hfiles'
  rfl

lemma entry_live {p : ResourceKey × Entry} (hp : p ∈ c.entries) : p.2.id ∈ c.liveIds :=
  List.mem_append_left _ (List.mem_map_of_mem hp)

lemma dummy_live {id : ℕ} (hid : c.whiteDummy = some id) : id ∈ c.liveIds := by
  simp [ResourceCache.liveIds, hid]

/-- What the maps hold when no freed range held a texture. -/
lemma holds_iff (h : TypedRun pol detile ok c cmds) (hok : ∀ c op, ok c op → op.SparesTextures c)
    (id : ℕ) : (Host.empty.replay cmds).Holds id ↔
      (∃ p ∈ c.entries, p.2.id = id) ∨ c.whiteDummy = some id := by
  constructor
  · rintro ⟨m,hm⟩
    obtain ⟨o,ho⟩ := Option.isSome_iff_exists.mp hm
    obtain ⟨⟨cmd,hcmd,hfiles⟩,hkept⟩ := (h.held_iff m id o).mp ho
    have hcreate := ResourceCmd.files_event hfiles
    have hfree : .freeResource id ∉ cmds := by
      intro hfree
      obtain ⟨k,hk,cmd',hcmd',o',hfiles'⟩ := h.freed_home hok hfree
      obtain rfl := h.create_unique hcmd hcmd' hcreate (ResourceCmd.files_event hfiles')
      rw [hfiles] at hfiles'
      cases hfiles'
      cases m with
      | images => exact hk rfl
      | resources | imported | renderTargets => exact hkept ⟨rfl,hfree⟩
    have hlive : id ∈ c.liveIds := by
      refine ((cacheRun_disciplined pol detile h.cacheRun).live id).mpr ⟨?_,fun hmem => ?_⟩
      · exact List.mem_filterMap.mpr ⟨_,List.mem_map_of_mem hcmd,by rw [hcreate]⟩
      · obtain ⟨e,he,heq⟩ := List.mem_filterMap.mp hmem
        obtain ⟨cmd',hcmd',rfl⟩ := List.mem_map.mp he
        cases cmd' <;> simp_all [ResourceCmd.event]
    simp only [ResourceCache.liveIds, List.mem_append, List.mem_map, Option.mem_toList] at hlive
    rcases hlive with hentry | ⟨s,hs,rfl⟩ | hdummy
    · exact .inl hentry
    · obtain rfl := h.create_unique hcmd (h.not_filed_sampler hs) hcreate rfl
      cases hfiles
    · exact .inr hdummy
  · rintro (⟨p,hp,rfl⟩ | hid)
    · obtain ⟨o,ho,-⟩ := h.held_of_filed (entry_live hp) (h.filed hp)
      exact ⟨_,Option.isSome_iff_exists.mpr ⟨o,ho⟩⟩
    · obtain ⟨o,ho,-⟩ := h.held_of_filed (dummy_live hid) (h.filed_dummy hid)
      exact ⟨_,Option.isSome_iff_exists.mpr ⟨o,ho⟩⟩

end TypedRun

/-- No lookup of an importable range, no texture in a freed range. -/
def Steady (pol : CachePolicy) (c : ResourceCache) (op : CacheOp) : Prop :=
  op.SparesTextures c ∧ op.Copies pol

/-- The backend mirrors the cache as long as no texture is freed and no buffer imported. -/
theorem steadyRun_mirrors {pol : CachePolicy} {detile : Bytes → SurfaceLayout → Option Bytes}
    {c : ResourceCache} {cmds : List ResourceCmd} (h : TypedRun pol detile (Steady pol) c cmds) :
    Mirrors c cmds (Host.empty.replay cmds) := by
  refine ⟨h.holds_iff fun _ _ hok => hok.1,fun p hp hl => ?_,fun p hp ht => ?_,fun p hp hr => ?_,
    fun id hid => ?_⟩
  · obtain ⟨o,ho,hmade,-⟩ := h.held_of_filed (TypedRun.entry_live hp) (h.filed hp)
    have hhome := homeOf_linear hl
    have hcopied : p.2.imported = false := by
      rw [Bool.eq_false_iff]
      intro himp
      refine h.not_imported (fun _ _ hok => hok.2) p.2.id ?_
      simpa [hhome, himp] using h.filed hp
    rw [hhome, hcopied] at ho
    exact ⟨o,ho,hmade⟩
  · obtain ⟨o,ho,hmade,-⟩ := h.held_of_filed (TypedRun.entry_live hp) (h.filed hp)
    rw [homeOf_texture.mp ht] at ho
    exact ⟨o,by simp [Host.bindTexture, ho],hmade⟩
  · obtain ⟨o,ho,hmade,hothers⟩ := h.held_of_filed (TypedRun.entry_live hp) (h.filed hp)
    rw [homeOf_renderTarget.mp hr] at ho hothers
    exact ⟨o,ho,by simp [Host.bindTexture, ho, hothers .images (by decide)],hmade⟩
  · obtain ⟨o,ho,hmade,-⟩ := h.held_of_filed (TypedRun.dummy_live hid) (h.filed_dummy hid)
    exact ⟨o,by simp [Host.bindTexture, ho],hmade⟩

/-- A buffer, a texture, a render target and the dummy are all found. -/
theorem steadyRun_mirrors_four :
    ∃ c cmds, TypedRun copyPolicy (fun bytes _ => some bytes) (Steady copyPolicy) c cmds ∧
      c.entries.length = 3 ∧ c.whiteDummy = some 4 ∧ Mirrors c cmds (Host.empty.replay cmds) := by
  let zeros (_ n : ℕ) : Option Bytes := some (List.replicate n 0)
  let surface : SurfaceLayout := ⟨.bpp32,1,1,.linearGeneral,0⟩
  have h₁ : TypedRun copyPolicy (fun bytes _ => some bytes) (Steady copyPolicy) _ _ :=
    .step (.get 0 zeros ⟨0x1000,4,.vertexBuf⟩) .new rfl ⟨trivial,rfl⟩ rfl
  have h₂ := h₁.step (.getTexture 0 zeros ⟨0x2000,4,.texture ⟨10,0⟩ surface⟩ surface
    .r8g8b8a8Unorm) rfl ⟨trivial,trivial⟩ rfl
  have h₃ := h₂.step (.getRenderTarget ⟨0x3000,4,.renderTarget ⟨10,0⟩ surface⟩ surface
    .r8g8b8a8Unorm) rfl ⟨trivial,trivial⟩ rfl
  have h₄ := h₃.step .getWhiteDummy trivial ⟨trivial,trivial⟩ rfl
  exact ⟨_,_,h₄,rfl,rfl,steadyRun_mirrors h₄⟩

/-- A freed texture stays in the images; an imported buffer is not where the binds look. -/
theorem not_mirrors_freed_texture :
    (∃ c cmds, TypedRun copyPolicy (fun bytes _ => some bytes) (fun _ _ => True) c cmds ∧
      c.entries = [] ∧ c.whiteDummy = none ∧ (Host.empty.replay cmds).Holds 1 ∧
      ¬Mirrors c cmds (Host.empty.replay cmds)) ∧
    ∃ pol c cmds, TypedRun pol (fun bytes _ => some bytes) (fun _ _ => True) c cmds ∧
      (∃ p ∈ c.entries, p.1.layout = .vertexBuf ∧ (Host.empty.replay cmds).bindBuffer p.2.id = none) ∧
      ¬Mirrors c cmds (Host.empty.replay cmds) := by
  let zeros (_ n : ℕ) : Option Bytes := some (List.replicate n 0)
  let surface : SurfaceLayout := ⟨.bpp32,1,1,.linearGeneral,0⟩
  constructor
  · have h₁ : TypedRun copyPolicy (fun bytes _ => some bytes) (fun _ _ => True) _ _ :=
      .step (.getTexture 0 zeros ⟨0x2000,4,.texture ⟨10,0⟩ surface⟩ surface .r8g8b8a8Unorm)
        .new rfl trivial rfl
    have h₂ := h₁.step (.freeRange 0x2000 4) trivial trivial rfl
    refine ⟨_,_,h₂,rfl,rfl,⟨.images,rfl⟩,fun hm => ?_⟩
    rcases (hm.ids 1).mp ⟨.images,rfl⟩ with ⟨p,hp,-⟩ | hdummy
    · cases hp
    · cases hdummy
  · let pol : CachePolicy := ⟨fun _ _ => .zeroCopyCandidate,fun _ _ _ => true⟩
    have h₁ : TypedRun pol (fun bytes _ => some bytes) (fun _ _ => True) _ _ :=
      .step (.get 0 zeros ⟨0x1000,4,.vertexBuf⟩) .new rfl trivial rfl
    refine ⟨pol,_,_,h₁,⟨_,List.mem_cons_self,rfl,rfl⟩,fun hm => ?_⟩
    obtain ⟨o,ho,-⟩ := hm.buffers _ List.mem_cons_self rfl
    cases ho

end Unemups4.Gnm
