import Unemups4.CacheMachine

/-! The cache serves fresh bytes: every clean entry it trusts is watched and its copy shows
the guest bytes, unless a report about them is on its way. -/
namespace Unemups4.Gnm

section Kept

variable {c d : ResourceCache} {cmds : List ResourceCmd}

/-- An entry of the cache after an operation that was there before: same resource, not
cleaner than it was, and no command of the operation names its id. -/
def Kept (c : ResourceCache) (cmds : List ResourceCmd) (p : ResourceKey × Entry) : Prop :=
  ∃ q ∈ c.entries, q.1 = p.1 ∧ q.2.id = p.2.id ∧ q.2.imported = p.2.imported ∧
    q.2.isRt = p.2.isRt ∧ (p.2.dirty = false → q.2.dirty = false) ∧
    ∀ cmd ∈ cmds, cmd.event.id ≠ p.2.id

lemma Kept.of_mem {p : ResourceKey × Entry} (h : p ∈ c.entries)
    (hcmds : ∀ cmd ∈ cmds, cmd.event.id ≠ p.2.id) : Kept c cmds p :=
  ⟨p,h,rfl,rfl,rfl,rfl,id,hcmds⟩

/-- Frees leave the surviving entries alone. -/
lemma kept_of_frees (hwf : c.WellFormed) (hemits : c.Emits cmds d)
    (hsub : ∀ p ∈ d.entries, p ∈ c.entries)
    (hfree : ∀ cmd ∈ cmds, ∃ id, cmd = .freeResource id) : ∀ p ∈ d.entries, Kept c cmds p := by
  intro p hp
  refine .of_mem (hsub p hp) fun cmd hcmd heq => ?_
  obtain ⟨hd,hf⟩ := hemits hwf
  obtain ⟨id,rfl⟩ := hfree cmd hcmd
  have hlive : p.2.id ∈ (d.ledger hd).live :=
    List.mem_toFinset.mpr (List.mem_append_left _ (List.mem_map_of_mem hp))
  rw [hf.live_eq] at hlive
  refine (Finset.mem_sdiff.mp hlive).2 (List.mem_toFinset.mpr ?_)
  exact List.mem_filterMap.mpr ⟨_,List.mem_map_of_mem hcmd,by
    simpa [ResourceCmd.event, Lifetime.Event.id] using heq⟩

/-- Trimming concerns the entries only. -/
lemma trim_frame (c : ResourceCache) (now : ℕ) :
    (c.trim now).1.samplers = c.samplers ∧ (c.trim now).1.whiteDummy = c.whiteDummy := by
  unfold ResourceCache.trim
  split_ifs with hflip
  · exact ⟨rfl,rfl⟩
  · dsimp only
    split_ifs with hbudget
    · exact ⟨rfl,rfl⟩
    · exact (ResourceCache.evict_frees _ _).frame

lemma trim_kept (hwf : c.WellFormed) (now : ℕ) :
    ∀ p ∈ (c.trim now).1.entries, Kept c (c.trim now).2 p := by
  obtain ⟨hsub,hfree⟩ := trim_frees c now
  exact kept_of_frees hwf (c.trim_emits now) hsub hfree

lemma markDirty_kept (c : ResourceCache) (hit : ResourceKey → Bool) :
    ∀ p ∈ (c.markDirty hit).entries, Kept c [] p := by
  intro p hp
  obtain ⟨q,hq,rfl⟩ := List.mem_map.mp hp
  refine ⟨q,hq,?_⟩
  split_ifs <;> simp

lemma modify_kept (c : ResourceCache) (key : ResourceKey) (now : ℕ) :
    ∀ p ∈ (c.modify key fun e => { e with lastUsed := now }).entries, Kept c [] p := by
  intro p hp
  obtain ⟨q,hq,rfl⟩ := List.mem_map.mp hp
  refine ⟨q,hq,?_⟩
  split_ifs <;> simp

/-- Commands on a freshly minted id. -/
lemma kept_of_fresh (hwf : c.WellFormed) (hcmds : ∀ cmd ∈ cmds, cmd.event.id = c.nextId)
    {p : ResourceKey × Entry} (hp : p ∈ c.entries) : Kept c cmds p := by
  refine .of_mem hp fun cmd hcmd heq => ?_
  have hlt := hwf.minted p.2.id (List.mem_append_left _ (List.mem_map_of_mem hp))
  have := hcmds cmd hcmd
  omega

end Kept

def ResLayout.isTarget : ResLayout → Bool
  | renderTarget _ _ => true
  | _ => false

/-- The copy is of the kind its entry says. -/
def Fits (k : ResourceKey) (e : Entry) : Option Copy → Prop
  | some (.buffer data) => isLinearBuffer k.layout ∧ e.imported = false ∧ data.length = k.size
  | some (.image _) => (∃ format surface, k.layout = .texture format surface) ∧ e.imported = false
  | some (.imported addr size) => isLinearBuffer k.layout ∧ e.imported = true ∧
      addr = k.addr ∧ size = k.size
  | some .target => k.layout.isTarget
  | _ => False

/-- No undrained report touches the key. -/
def Quiet (log : List (ℕ × ℕ)) (key : ResourceKey) : Prop :=
  ∀ r ∈ log, rangesOverlap key.addr key.size r.1 r.2 = false

/-- A clean copy the cache trusts shows the guest bytes, unless a report is on its way. -/
structure Backed (detile : Bytes → SurfaceLayout → Option Bytes) (b : Backend)
    (bytes : ℕ → UInt8) (log : List (ℕ × ℕ)) (p : ResourceKey × Entry) : Prop where
  fits : Fits p.1 p.2 (b p.2.id)
  target : p.2.isRt = true → p.1.layout.isTarget = true
  clean : p.1.layout.isTarget = false → watchPays p.1.layout → p.2.imported = false →
    p.2.dirty = false → Quiet log p.1 →
    (b p.2.id).bind (·.contents bytes) = Machine.view detile bytes p.1

lemma Kept.fits {c : ResourceCache} {b : Backend} {cmds : List ResourceCmd}
    {p : ResourceKey × Entry} (hc : ∀ q ∈ c.entries, Fits q.1 q.2 (b q.2.id))
    (h : Kept c cmds p) : Fits p.1 p.2 (b.replay cmds p.2.id) := by
  obtain ⟨q,hq,hkey,hid,himp,-,-,hne⟩ := h
  have hfits := hc q hq
  rw [b.replay_of_ne hne, ← hid, ← hkey]
  unfold Fits at hfits ⊢
  rw [← himp]
  exact hfits

lemma Backed.kept {detile : Bytes → SurfaceLayout → Option Bytes} {c : ResourceCache}
    {b : Backend} {bytes : ℕ → UInt8} {log : List (ℕ × ℕ)} {cmds : List ResourceCmd}
    {p : ResourceKey × Entry} (hc : ∀ q ∈ c.entries, Backed detile b bytes log q)
    (h : Kept c cmds p) : Backed detile (b.replay cmds) bytes log p := by
  have hfits := h.fits fun q hq => (hc q hq).fits
  obtain ⟨q,hq,hkey,hid,himp,hrt,hdirty,hne⟩ := h
  have hq := hc q hq
  have hb : b.replay cmds p.2.id = b q.2.id := by rw [b.replay_of_ne hne, hid]
  refine ⟨hfits,?_,?_⟩
  · rw [← hkey, ← hrt]
    exact hq.target
  · intro htarget hpays hi hd hlog
    rw [← hkey] at htarget hpays hlog ⊢
    rw [hb]
    exact hq.clean htarget hpays (himp.trans hi) (hdirty hd) hlog

namespace Machine

/-- The cache as it is once the lookup in flight is recorded. -/
def entries (m : Machine) : List (ResourceKey × Entry) :=
  match m.pending with
  | some (key,.miss entry) => (key,entry) :: m.cache.entries
  | _ => m.cache.entries

structure Coherent (detile : Bytes → SurfaceLayout → Option Bytes) (m : Machine) : Prop where
  wellFormed : ResourceCache.WellFormed { m.cache with entries := m.entries }
  watched : ∀ p ∈ m.cache.entries, watchPays p.1.layout → p.1.layout.isTarget = false →
    (p.1.addr,p.1.size) ∈ m.watched
  backed : ∀ p ∈ m.entries, Backed detile m.backend m.bytes m.log p

variable {detile : Bytes → SurfaceLayout → Option Bytes} {m : Machine}

lemma Coherent.idle (h : m.Coherent detile) (hidle : m.pending = none) {c : ResourceCache}
    {cmds : List ResourceCmd} {watched : List (ℕ × ℕ)} (hemits : m.cache.Emits cmds c)
    (hkept : ∀ p ∈ c.entries, Kept m.cache cmds p ∨
      p.1.layout.isTarget ∧ Backed detile (m.backend.replay cmds) m.bytes m.log p)
    (hwatched : ∀ p ∈ c.entries, (p.1.addr,p.1.size) ∈ m.watched →
      (p.1.addr,p.1.size) ∈ watched) :
    Coherent detile { m with
      cache := c
      backend := m.backend.replay cmds
      watched := watched } := by
  have hwf := h.wellFormed
  have hbacked := h.backed
  simp only [entries, hidle] at hwf hbacked
  obtain ⟨hc,-⟩ := hemits hwf
  refine ⟨by simpa [entries, hidle] using hc,?_,?_⟩
  · intro p hp hpays htarget
    refine hwatched p hp ?_
    rcases hkept p hp with ⟨q,hq,hkey,-⟩ | ⟨ht,-⟩
    · rw [← hkey] at hpays htarget ⊢
      exact h.watched q hq hpays htarget
    · simp [ht] at htarget
  · intro p hp
    simp only [entries, hidle] at hp
    rcases hkept p hp with hk | ⟨-,hb⟩
    · exact Backed.kept hbacked hk
    · exact hb

lemma Coherent.cache_wellFormed (h : m.Coherent detile) (hidle : m.pending = none) :
    m.cache.WellFormed := by
  have hwf := h.wellFormed
  simpa [entries, hidle] using hwf

lemma Coherent.trim (h : m.Coherent detile) (hidle : m.pending = none) (now : ℕ) :
    Coherent detile { m with
      cache := (m.cache.trim now).1
      backend := m.backend.replay (m.cache.trim now).2 } :=
  h.idle hidle (m.cache.trim_emits now)
    (fun p hp => .inl (trim_kept (h.cache_wellFormed hidle) now p hp)) fun _ _ hw => hw

lemma Coherent.markDirty (h : m.Coherent detile) (hidle : m.pending = none)
    (hit : ResourceKey → Bool) : Coherent detile { m with cache := m.cache.markDirty hit } :=
  h.idle hidle (m.cache.markDirty_emits hit)
    (fun p hp => .inl (markDirty_kept _ hit p hp)) fun _ _ hw => hw

/-- A drain marks what was reported, so nothing is on its way any more. -/
lemma Coherent.drain (h : m.Coherent detile) (hidle : m.pending = none) :
    Coherent detile { m with cache := m.cache.applyDirty m.log, log := [] } := by
  have hmark := h.markDirty hidle fun key =>
    m.log.any fun r => rangesOverlap key.addr key.size r.1 r.2
  refine ⟨hmark.wellFormed,hmark.watched,fun p hp => ?_⟩
  have hb := hmark.backed p hp
  refine ⟨hb.fits,hb.target,fun htarget hpays himp hdirty _ => ?_⟩
  refine hb.clean htarget hpays himp hdirty fun r hr => ?_
  simp only [entries, hidle, ResourceCache.applyDirty, ResourceCache.markDirty] at hp
  obtain ⟨q,-,rfl⟩ := List.mem_map.mp hp
  split_ifs at hdirty htarget himp hb ⊢ with hhit
  by_contra hover
  refine hhit ?_
  have hrt : q.2.isRt = false := by
    by_contra hrt
    have := hb.target (by simpa using hrt)
    simp [this] at htarget
  have hany : m.log.any (fun r => rangesOverlap q.1.addr q.1.size r.1 r.2) = true :=
    List.any_eq_true.mpr ⟨r,hr,by simpa using hover⟩
  simp [himp, hrt, hany]

lemma mem_foldl_applyWatch {watched : List (ℕ × ℕ)} {r : ℕ × ℕ} (hr : r ∈ watched)
    {ws : List WatchOp} (h : ∀ w ∈ ws, w ≠ .unwatch r.1 r.2) :
    r ∈ ws.foldl applyWatch watched := by
  induction ws generalizing watched with
  | nil => exact hr
  | cons w ws ih =>
    refine ih ?_ fun x hx => h x (List.mem_cons_of_mem _ hx)
    cases w with
    | watch addr size =>
      simp only [applyWatch]
      split_ifs
      · exact hr
      · exact List.mem_append_left _ hr
    | unwatch addr size =>
      refine List.mem_filter.mpr ⟨hr,decide_eq_true fun heq => ?_⟩
      exact h (.unwatch addr size) (by simp) (by rw [heq])

lemma freeKeys_unwatches (c : ResourceCache) (keys : List ResourceKey) :
    ∀ w ∈ (c.freeKeys keys).2.2, ∃ k ∈ keys, w = .unwatch k.addr k.size := by
  induction keys generalizing c with
  | nil => simp [ResourceCache.freeKeys]
  | cons key rest ih =>
    unfold ResourceCache.freeKeys
    cases c.lookup key with
    | none =>
      intro w hw
      obtain ⟨k,hk,rfl⟩ := ih c w hw
      exact ⟨k,List.mem_cons_of_mem _ hk,rfl⟩
    | some entry =>
      dsimp only
      intro w hw
      rcases List.mem_append.mp hw with hw | hw
      · split_ifs at hw
        · exact ⟨key,by simp,by simpa using hw⟩
        · simp at hw
      · obtain ⟨k,hk,rfl⟩ := ih _ w hw
        exact ⟨k,List.mem_cons_of_mem _ hk,rfl⟩

/-- A free drops every entry of a range it unwatches, so what stays is still watched. -/
lemma Coherent.freeRange (h : m.Coherent detile) (hidle : m.pending = none) (addr size : ℕ) :
    Coherent detile { m with
      cache := (m.cache.freeRange addr size).1
      backend := m.backend.replay (m.cache.freeRange addr size).2.1
      watched := (m.cache.freeRange addr size).2.2.foldl applyWatch m.watched } := by
  let keys := (m.cache.entries.map (·.1)).filter fun k => rangesOverlap k.addr k.size addr size
  have hfrees := m.cache.freeKeys_frees keys
  refine h.idle hidle hfrees.emits (fun p hp => .inl ?_) fun p hp hw => ?_
  · refine kept_of_frees (h.cache_wellFormed hidle) hfrees.emits (fun _ hp => hfrees.entries hp)
      (fun cmd hcmd => ?_) p hp
    obtain ⟨q,-,-,heq⟩ := hfrees.named cmd hcmd
    exact ⟨q.2.id,heq⟩
  · refine mem_foldl_applyWatch hw fun w hmem heq => ?_
    obtain ⟨k,hk,rfl⟩ := freeKeys_unwatches m.cache keys w hmem
    obtain ⟨-,hover⟩ := List.mem_filter.mp hk
    simp only [WatchOp.unwatch.injEq] at heq
    refine freeKeys_clears m.cache keys p hp
      (List.mem_filter.mpr ⟨List.mem_map_of_mem (hfrees.entries hp),?_⟩)
    rw [← heq.1, ← heq.2]
    exact hover

lemma Coherent.getRenderTarget (h : m.Coherent detile) (hidle : m.pending = none)
    {addr size id : ℕ} {format : SurfaceFormat} {surface : SurfaceLayout} {color : ColorFormat}
    {c : ResourceCache} {cmds : List ResourceCmd}
    (hget : m.cache.getRenderTarget ⟨addr,size,.renderTarget format surface⟩ surface color =
      some (id,c,cmds)) :
    Coherent detile { m with cache := c, backend := m.backend.replay cmds } := by
  have hwf := h.cache_wellFormed hidle
  refine h.idle hidle (ResourceCache.getRenderTarget_emits hget) ?_ fun _ _ hw => hw
  obtain ⟨_,-,rfl,rfl,rfl⟩ | ⟨-,rfl,rfl,rfl⟩ := ResourceCache.getRenderTarget_eq_some hget
  · exact fun p hp => .inl (modify_kept _ _ _ p hp)
  · intro p hp
    rcases List.mem_cons.mp hp with rfl | hp
    · refine .inr ⟨rfl,⟨?_,fun _ => rfl,fun htarget => ?_⟩⟩
      · simp [Backend.replay, Backend.apply, Fits, ResLayout.isTarget]
      · simp [ResLayout.isTarget] at htarget
    · exact .inl (kept_of_fresh hwf (by simp [ResourceCmd.event, Lifetime.Event.id]) hp)

lemma Coherent.beside (h : m.Coherent detile) (hidle : m.pending = none) {c : ResourceCache}
    {cmds : List ResourceCmd} (hbeside : m.cache.Beside cmds c) :
    Coherent detile { m with cache := c, backend := m.backend.replay cmds } := by
  obtain ⟨hemits,hentries,hnew⟩ := hbeside
  refine h.idle hidle hemits (fun p hp => .inl ?_) fun _ _ hw => hw
  exact kept_of_fresh (h.cache_wellFormed hidle) hnew (hentries ▸ hp)

lemma Coherent.rehash (h : m.Coherent detile) (hidle : m.pending = none)
    {es : List (ResourceKey × Entry)} (hperm : es.Perm m.cache.entries) :
    Coherent detile { m with cache := { m.cache with entries := es } } :=
  h.idle hidle (ResourceCache.rehash_emits hperm)
    (fun _ hp => .inl (.of_mem (hperm.mem_iff.mp hp) (by simp))) fun _ _ hw => hw

/-- What a lookup asks of its recipe: an upload makes the copy show the guest bytes, a
creation makes one of the right kind, and a clean hit is one the cache may trust. -/
structure Serves (detile : Bytes → SurfaceLayout → Option Bytes) (m : Machine)
    (key : ResourceKey) (r : ResourceCache.Recipe) : Prop where
  lawful : r.Lawful
  target : key.layout.isTarget = false
  upload : ∀ {id : ℕ} {cmd : ResourceCmd}, r.upload id = some cmd →
    ∀ {b : Backend} {e : Entry}, e.imported = false → Fits key e (b id) →
      Fits key e (b.apply cmd id) ∧
        (b.apply cmd id).bind (·.contents m.bytes) = view detile m.bytes key ∧ cmd.Whole b
  create : ∀ (id : ℕ) (b : Backend) {e : Entry}, e.imported = r.imported →
    Fits key e (b.apply (r.create id) id)
  clean : ∀ {e : Entry}, r.clean e → e.imported = false →
    e.dirty = false ∧ watchPays key.layout
  copied : ∀ {e : Entry} {copy : Option Copy}, ¬r.clean e → Fits key e copy → e.imported = false
  readable : ∀ {id : ℕ} {data : Bytes}, m.readable key.addr key.size →
    view detile m.bytes key = some data → r.upload id ≠ none

lemma length_bytesAt (bytes : ℕ → UInt8) (addr size : ℕ) :
    (bytesAt bytes addr size).length = size := by
  simp [bytesAt]

lemma bufferRecipe_serves (pol : CachePolicy) {key : ResourceKey}
    (hlinear : isLinearBuffer key.layout) :
    m.Serves detile key (ResourceCache.bufferRecipe pol m.read key) := by
  have hview : view detile m.bytes key = some (bytesAt m.bytes key.addr key.size) := by
    unfold view
    split
    · simp_all [isLinearBuffer]
    · rfl
  have htarget : key.layout.isTarget = false := by
    cases hl : key.layout <;> simp_all [isLinearBuffer, ResLayout.isTarget]
  refine ⟨ResourceCache.bufferRecipe_lawful pol _ key,htarget,?_,?_,?_,?_,?_⟩
  · intro id cmd hup b e himp hfits
    obtain ⟨data,hread,rfl⟩ := Option.map_eq_some_iff.mp hup
    unfold Machine.read at hread
    split_ifs at hread with hr
    cases hread
    cases hcopy : b id with
    | none => simp [hcopy, Fits] at hfits
    | some copy =>
      rw [hcopy] at hfits
      cases copy with
      | buffer old =>
        have hold : old.length = key.size := hfits.2.2
        have hwhole := Copy.upload_whole
          ((length_bytesAt m.bytes key.addr key.size).trans hold.symm)
        simp [Backend.apply, hcopy, hwhole, Fits, Copy.contents, hview, hlinear, himp,
          length_bytesAt, ResourceCmd.Whole, Copy.data]
      | image texels =>
        obtain ⟨⟨format,surface,hl⟩,-⟩ := hfits
        simp [hl, isLinearBuffer] at hlinear
      | imported addr size => simp [hfits.2.1] at himp
      | sampler => simp [Fits] at hfits
      | target => simp [Fits, htarget] at hfits
  · intro id b e himp
    simp only [ResourceCache.bufferRecipe] at himp ⊢
    split_ifs with hi <;> simp [Backend.apply, Fits, hlinear, himp, hi]
  · intro e hclean himp
    simpa [ResourceCache.bufferRecipe, himp] using hclean
  · intro e copy hclean _
    by_contra himp
    simp [ResourceCache.bufferRecipe, himp] at hclean
  · intro id data hr _
    simp [ResourceCache.bufferRecipe, ResourceCache.emitUpload, Machine.read, hr]

lemma textureRecipe_serves {key : ResourceKey} {format : SurfaceFormat} {surface : SurfaceLayout}
    (hlayout : key.layout = .texture format surface) (pixel : TextureFormat) :
    m.Serves detile key (ResourceCache.textureRecipe detile m.read key surface pixel) := by
  have hview : view detile m.bytes key = detile (bytesAt m.bytes key.addr key.size) surface := by
    simp [view, hlayout]
  have htarget : key.layout.isTarget = false := by simp [hlayout, ResLayout.isTarget]
  refine ⟨ResourceCache.textureRecipe_lawful detile _ key surface pixel,htarget,?_,?_,?_,?_,?_⟩
  · intro id cmd hup b e himp hfits
    obtain ⟨bytes,hread,hup⟩ := Option.bind_eq_some_iff.mp hup
    obtain ⟨data,hdetile,rfl⟩ := Option.map_eq_some_iff.mp hup
    unfold Machine.read at hread
    split_ifs at hread with hr
    cases hread
    cases hcopy : b id with
    | none => simp [hcopy, Fits] at hfits
    | some copy =>
      rw [hcopy] at hfits
      cases copy with
      | buffer old => simp [Fits, hlayout, isLinearBuffer] at hfits
      | image texels =>
        simp [Backend.apply, hcopy, Copy.upload, Fits, Copy.contents, hview, hdetile, hlayout, himp,
          ResourceCmd.Whole, Copy.data]
      | imported addr size => simp [Fits, hlayout, isLinearBuffer] at hfits
      | sampler => simp [Fits] at hfits
      | target => simp [Fits, htarget] at hfits
  · intro id b e himp
    simp only [ResourceCache.textureRecipe] at himp
    simp [ResourceCache.textureRecipe, Backend.apply, Fits, hlayout, himp]
  · intro e hclean himp
    simpa [ResourceCache.textureRecipe, hlayout, watchPays] using hclean
  · intro e copy _ hfits
    unfold Fits at hfits
    split at hfits
    · exact hfits.2.1
    · exact hfits.2
    · simp [hlayout, isLinearBuffer] at hfits
    · simp [htarget] at hfits
    · exact hfits.elim
  · intro id data hr hdata
    rw [hview] at hdata
    simp [ResourceCache.textureRecipe, ResourceCache.emitImageUpload, Machine.read, hr, hdata]

lemma recipe_serves {pol : CachePolicy} {key : ResourceKey} {format : TextureFormat}
    {r : ResourceCache.Recipe} (h : m.recipe pol detile key format = some r) :
    m.Serves detile key r := by
  unfold recipe at h
  split at h
  case h_4 surface hl =>
    cases h
    exact textureRecipe_serves hl format
  case h_5 => simp at h
  all_goals
    cases h
    exact bufferRecipe_serves pol (by simp [isLinearBuffer, *])

lemma recipe_serves_trim {pol : CachePolicy} {key : ResourceKey} {format : TextureFormat}
    {r : ResourceCache.Recipe} (h : m.recipe pol detile key format = some r) (now : ℕ) :
    Serves detile { m with
      cache := (m.cache.trim now).1
      backend := m.backend.replay (m.cache.trim now).2 } key r := by
  have htrim : recipe pol detile { m with
      cache := (m.cache.trim now).1
      backend := m.backend.replay (m.cache.trim now).2 } key format = some r := h
  exact recipe_serves htrim

/-- The machine after the read of a lookup. -/
def looked (m : Machine) (key : ResourceKey) (a : ResourceCache.Acquired) (c : ResourceCache)
    (cmds : List ResourceCmd) : Machine :=
  { m with cache := c, backend := m.backend.replay cmds, pending := some (key,a) }

/-- The copy under an id, as read by the GPU. -/
def shown (m : Machine) (id : ℕ) : Option Bytes := (m.backend id).bind (·.contents m.bytes)

section Lookup

variable {key : ResourceKey} {r : ResourceCache.Recipe} {a : ResourceCache.Acquired}
  {c : ResourceCache} {cmds : List ResourceCmd}

lemma reupload_mem (hwf : m.cache.WellFormed) {e : Entry} (hlook : m.cache.lookup key = some e)
    {p : ResourceKey × Entry}
    (hp : p ∈ ((m.cache.touch key).modify key fun e => { e with dirty := false }).entries) :
    p = (key,{ e with lastUsed := m.cache.trimmedFlip, dirty := false }) ∨
      p.1 ≠ key ∧ p ∈ m.cache.entries := by
  simp only [ResourceCache.modify, ResourceCache.touch, List.map_map] at hp
  obtain ⟨q,hq,rfl⟩ := List.mem_map.mp hp
  by_cases hkey : q.1 = key
  · have heq : q = (key,e) :=
      List.inj_on_of_nodup_map hwf.keys hq (ResourceCache.lookup_mem hlook) hkey
    subst heq
    exact .inl (by simp)
  · exact .inr (by simp [hkey, hq])

lemma id_ne_of_key_ne (hwf : m.cache.WellFormed) {p q : ResourceKey × Entry}
    (hp : p ∈ m.cache.entries) (hq : q ∈ m.cache.entries) (hne : p.1 ≠ q.1) :
    q.2.id ≠ p.2.id := by
  intro heq
  have hids := (List.nodup_append.mp hwf.ids).1
  exact hne (by rw [List.inj_on_of_nodup_map hids hq hp heq])

lemma Coherent.backed_of_mem (h : m.Coherent detile) (hidle : m.pending = none) :
    ∀ p ∈ m.cache.entries, Backed detile m.backend m.bytes m.log p := by
  have hb := h.backed
  simpa only [entries, hidle] using hb

/-- The entry of the key as the read left it: a copy of its kind, and one that shows the
guest bytes if it is clean. -/
def Renewed (detile : Bytes → SurfaceLayout → Option Bytes) (m : Machine) (key : ResourceKey)
    (b : Backend) (p : ResourceKey × Entry) : Prop :=
  p.1 = key ∧ Fits p.1 p.2 (b p.2.id) ∧
    (p.2.isRt = true → ∃ q ∈ m.cache.entries, q.1 = key ∧ q.2.isRt = true) ∧
    (p.2.imported = false → p.2.dirty = false →
      (b p.2.id).bind (·.contents m.bytes) = view detile m.bytes key)

lemma Serves.renewed (hr : m.Serves detile key r) (hwf : m.cache.WellFormed)
    (hold : ∀ p ∈ m.cache.entries, Fits p.1 p.2 (m.backend p.2.id))
    (hreads : ResourceCache.Reads m.cache key r a c cmds) :
    ∀ p ∈ (m.looked key a c cmds).entries,
      Kept m.cache cmds p ∨ Renewed detile m key (m.backend.replay cmds) p := by
  intro p hp
  cases hreads with
  | clean => exact .inl (modify_kept _ _ _ p hp)
  | unreadable => exact .inl (modify_kept _ _ _ p hp)
  | @reupload e cmd hlook hclean hup =>
    have hmem := ResourceCache.lookup_mem hlook
    rcases reupload_mem hwf hlook hp with rfl | ⟨hne,hp⟩
    · have hb := hold _ hmem
      obtain ⟨hfits,hshow,-⟩ := hr.upload hup (hr.copied hclean hb) hb
      exact .inr ⟨rfl,hfits,fun hrt => ⟨_,hmem,rfl,hrt⟩,fun _ _ => hshow⟩
    · refine .inl (.of_mem hp ?_)
      simpa [hr.lawful.upload _ _ hup, Lifetime.Event.id] using id_ne_of_key_ne hwf hp hmem hne
  | imported hlook himp =>
    rcases List.mem_cons.mp hp with rfl | hp
    · exact .inr ⟨rfl,hr.create _ _ himp.symm,by simp,by simp⟩
    · exact .inl (kept_of_fresh hwf (by simp [hr.lawful.create, Lifetime.Event.id]) hp)
  | filled hlook himp hup =>
    rcases List.mem_cons.mp hp with rfl | hp
    · have hfits := hr.create m.cache.nextId m.backend
        (e := ⟨m.cache.nextId,false,false,false,m.cache.trimmedFlip⟩) (by simpa using himp)
      obtain ⟨hfits,hshow,-⟩ := hr.upload hup rfl hfits
      exact .inr ⟨rfl,hfits,by simp,fun _ _ => hshow⟩
    · refine .inl (kept_of_fresh hwf ?_ hp)
      simp [hr.lawful.create, hr.lawful.upload _ _ hup, Lifetime.Event.id]
  | unfilled hlook himp hup =>
    rcases List.mem_cons.mp hp with rfl | hp
    · exact .inr ⟨rfl,hr.create _ _ (by simpa using himp),by simp,by simp⟩
    · exact .inl (kept_of_fresh hwf (by simp [hr.lawful.create, Lifetime.Event.id]) hp)

lemma Serves.backed (hr : m.Serves detile key r) (h : m.Coherent detile)
    (hidle : m.pending = none) (hreads : ResourceCache.Reads m.cache key r a c cmds) :
    ∀ p ∈ (m.looked key a c cmds).entries, Backed detile (m.backend.replay cmds) m.bytes m.log p := by
  have hold := h.backed_of_mem hidle
  intro p hp
  rcases hr.renewed (h.cache_wellFormed hidle) (fun q hq => (hold q hq).fits) hreads p hp with
    hkept | ⟨rfl,hfits,hrt,hshow⟩
  · exact Backed.kept hold hkept
  · refine ⟨hfits,fun h => ?_,fun _ _ himp hdirty _ => hshow himp hdirty⟩
    obtain ⟨q,hq,hkey,hrt⟩ := hrt h
    exact hkey ▸ (hold q hq).target hrt

lemma Serves.coherent (hr : m.Serves detile key r) (h : m.Coherent detile)
    (hidle : m.pending = none) (hreads : ResourceCache.Reads m.cache key r a c cmds) :
    (m.looked key a c cmds).Coherent detile := by
  obtain ⟨hwf,-⟩ := hreads.emits hr.lawful (h.cache_wellFormed hidle)
  refine ⟨?_,?_,hr.backed h hidle hreads⟩
  · cases hreads <;> exact ⟨hwf.keys,hwf.ids,hwf.minted⟩
  · have hkeys : ∀ p ∈ c.entries, p.1 ∈ m.cache.entries.map (·.1) := by
      intro p hp
      have hp := List.mem_map_of_mem (f := (·.1)) hp
      cases hreads with
      | clean | unreadable => exact (ResourceCache.modify_keys _ _ _) ▸ hp
      | reupload =>
        rw [ResourceCache.modify_keys] at hp
        exact (ResourceCache.modify_keys _ _ _) ▸ hp
      | imported | filled | unfilled => exact hp
    intro p hp hpays htarget
    obtain ⟨q,hq,heq⟩ := List.mem_map.mp (hkeys p hp)
    rw [← heq] at hpays htarget ⊢
    exact h.watched q hq hpays htarget

/-- A copy imported from guest memory shows the guest bytes. -/
lemma shown_imported {p : ResourceKey × Entry}
    (h : Backed detile m.backend m.bytes m.log p) (htarget : p.1.layout.isTarget = false)
    (himp : p.2.imported = true) : m.shown p.2.id = view detile m.bytes p.1 := by
  have hfits := h.fits
  unfold shown
  unfold Fits at hfits
  split at hfits
  · simp [himp] at hfits
  · simp [himp] at hfits
  case h_3 addr size heq =>
    obtain ⟨hlinear,-,rfl,rfl⟩ := hfits
    rw [heq]
    unfold view
    split
    · simp_all [isLinearBuffer]
    · rfl
  · simp [htarget] at hfits
  · exact hfits.elim

/-- The read of a lookup leaves a copy that shows the guest bytes, if no report about them
is on its way. -/
lemma Serves.shown (hr : m.Serves detile key r) (h : m.Coherent detile)
    (hidle : m.pending = none) (hreads : ResourceCache.Reads m.cache key r a c cmds)
    (hquiet : Quiet m.log key) (hread : m.readable key.addr key.size) {data : Bytes}
    (hview : view detile m.bytes key = some data) :
    (m.looked key a c cmds).shown a.id = some data := by
  have hold := h.backed_of_mem hidle
  rw [← hview]
  cases hreads with
  | @clean e hlook hclean =>
    have hb := hold _ (ResourceCache.lookup_mem hlook)
    by_cases himp : e.imported = true
    · exact shown_imported hb hr.target himp
    · obtain ⟨hdirty,hpays⟩ := hr.clean hclean (by simpa using himp)
      exact hb.clean hr.target hpays (by simpa using himp) hdirty hquiet
  | unreadable hlook _ hup => exact absurd hup (hr.readable hread hview)
  | @reupload e cmd hlook hclean hup =>
    have hb := hold _ (ResourceCache.lookup_mem hlook)
    exact (hr.upload hup (hr.copied hclean hb.fits) hb.fits).2.1
  | imported hlook himp =>
    refine shown_imported (m := m.looked key _ _ _)
      (p := (key,⟨m.cache.nextId,true,false,false,m.cache.trimmedFlip⟩)) ?_ hr.target rfl
    exact hr.backed h hidle (.imported hlook himp) _ (List.mem_cons_self ..)
  | filled hlook himp hup =>
    have hfits := hr.create m.cache.nextId m.backend
      (e := ⟨m.cache.nextId,false,false,false,m.cache.trimmedFlip⟩) (by simpa using himp)
    exact (hr.upload hup rfl hfits).2.1
  | unfilled hlook himp hup => exact absurd hup (hr.readable hread hview)

lemma lookup_modify (c : ResourceCache) (key : ResourceKey) (f : Entry → Entry) :
    (c.modify key f).lookup key = (c.lookup key).map f := by
  unfold ResourceCache.lookup ResourceCache.modify
  dsimp only
  induction c.entries with
  | nil => rfl
  | cons p ps ih =>
    obtain ⟨k,e⟩ := p
    by_cases hkey : k = key
    · subst hkey
      simp
    · have hbeq : (key == k) = false := beq_eq_false_iff_ne.mpr (Ne.symm hkey)
      simpa only [List.map_cons, hkey, if_false, List.lookup_cons, hbeq] using ih

/-- The lookup finds its key in the cache, or will record it there. -/
lemma Reads.entry {d : ResourceCache} (hreads : d.Reads key r a c cmds) :
    ∃ e, (c.acquireFinish key r a).1.lookup key = some e ∧ e.id = a.id := by
  cases hreads with
  | clean hlook | unreadable hlook =>
    have htouch := lookup_modify d key fun e => { e with lastUsed := d.trimmedFlip }
    rw [hlook] at htouch
    exact ⟨_,htouch,rfl⟩
  | reupload hlook =>
    have htouch := lookup_modify d key fun e => { e with lastUsed := d.trimmedFlip }
    have hclear := lookup_modify (d.touch key) key fun e => { e with dirty := false }
    rw [ResourceCache.touch, htouch, hlook] at hclear
    exact ⟨_,hclear,rfl⟩
  | imported | filled | unfilled =>
    exact ⟨_,by simp [ResourceCache.acquireFinish, ResourceCache.lookup],rfl⟩

end Lookup

/-- A write of `len` bytes at `addr` touches the key's range. -/
def Touches (addr len : ℕ) (key : ResourceKey) : Prop :=
  ∃ i < len, key.addr ≤ addr+i ∧ addr+i < key.addr+key.size

/-- The write does not hit a first use between the read of its bytes and its watch, where
nothing else watches them. -/
def Safe (m : Machine) : Action → Prop
  | .write addr data => ∀ key e, m.pending = some (key,.miss e) → e.imported = false →
      watchPays key.layout → ∀ i < data.length, key.addr ≤ addr+i → addr+i < key.addr+key.size →
        m.isWatched (addr+i)
  | _ => True

lemma bytesAt_writeAt {bytes : ℕ → UInt8} {addr : ℕ} {data : Bytes} {key : ResourceKey}
    (h : ¬Touches addr data.length key) :
    bytesAt (writeAt bytes addr data) key.addr key.size = bytesAt bytes key.addr key.size :=
  bytesAt_writeAt_spared fun i hi hlo => not_lt.mp fun hhi => h ⟨i,hi,hlo,hhi⟩

lemma view_writeAt {bytes : ℕ → UInt8} {addr : ℕ} {data : Bytes} {key : ResourceKey}
    (h : ¬Touches addr data.length key) :
    view detile (writeAt bytes addr data) key = view detile bytes key := by
  unfold view
  rw [bytesAt_writeAt h]

lemma not_quiet_of_reported {addr len i : ℕ} {key : ResourceKey} (hlen : addr+len ≤ u64Max)
    (hi : i < len) (hlo : key.addr ≤ addr+i) (hhi : addr+i < key.addr+key.size)
    (hwatch : m.isWatched (addr+i)) : ¬Quiet (m.log ++ m.reported addr len) key := by
  intro hquiet
  have hmem : (addr+i,1) ∈ m.reported addr len :=
    List.mem_map.mpr ⟨i,List.mem_filter.mpr ⟨List.mem_range.mpr hi,hwatch⟩,rfl⟩
  have hover := rangesOverlap_of_mem hlo hhi le_rfl (Nat.lt_add_one (addr+i))
    (by omega)
  simp [hquiet _ (List.mem_append_right _ hmem)] at hover

lemma contents_of_copied {k : ResourceKey} {e : Entry} {copy : Option Copy}
    (h : Fits k e copy) (himp : e.imported = false) (htarget : k.layout.isTarget = false)
    (bytes bytes' : ℕ → UInt8) : copy.bind (·.contents bytes) = copy.bind (·.contents bytes') := by
  unfold Fits at h
  split at h
  · rfl
  · rfl
  · simp [himp] at h
  · simp [htarget] at h
  · exact h.elim

lemma Coherent.isWatched (h : m.Coherent detile) {addr : ℕ} {data : Bytes}
    (hsafe : m.Safe (.write addr data)) {p : ResourceKey × Entry} (hp : p ∈ m.entries)
    (htarget : p.1.layout.isTarget = false) (hpays : watchPays p.1.layout)
    (himp : p.2.imported = false) {i : ℕ} (hi : i < data.length) (hlo : p.1.addr ≤ addr+i)
    (hhi : addr+i < p.1.addr+p.1.size) : m.isWatched (addr+i) := by
  have hcache : p ∈ m.cache.entries → m.isWatched (addr+i) := fun hmem => by
    refine List.any_eq_true.mpr ⟨_,h.watched p hmem hpays htarget,?_⟩
    simp [hlo, hhi]
  unfold entries at hp
  split at hp
  case h_1 key entry hpend =>
    rcases List.mem_cons.mp hp with rfl | hp
    · exact hsafe key entry hpend himp hpays i hi hlo hhi
    · exact hcache hp
  case h_2 => exact hcache hp

lemma Coherent.write (h : m.Coherent detile) {addr : ℕ} {data : Bytes}
    (hlen : addr+data.length ≤ u64Max) (hsafe : m.Safe (.write addr data)) :
    Coherent detile { m with
      bytes := writeAt m.bytes addr data
      log := m.log ++ m.reported addr data.length } := by
  refine ⟨h.wellFormed,h.watched,fun p hp => ?_⟩
  have hb := h.backed p hp
  refine ⟨hb.fits,hb.target,fun htarget hpays himp hdirty hquiet => ?_⟩
  by_cases htouch : Touches addr data.length p.1
  · -- the write was watched, so its report is still on its way
    obtain ⟨i,hi,hlo,hhi⟩ := htouch
    have hwatch := h.isWatched hsafe hp htarget hpays himp hi hlo hhi
    exact absurd hquiet (not_quiet_of_reported hlen hi hlo hhi hwatch)
  · have hlog : Quiet m.log p.1 := fun r hr => hquiet r (List.mem_append_left _ hr)
    rw [view_writeAt htouch, ← hb.clean htarget hpays himp hdirty hlog]
    exact contents_of_copied hb.fits himp htarget _ _

lemma recipe_watch {pol : CachePolicy} {key : ResourceKey} {format : TextureFormat}
    {r : ResourceCache.Recipe} (h : m.recipe pol detile key format = some r) :
    watchPays key.layout → r.watch = true := by
  unfold recipe at h
  split at h <;> cases h <;> simp_all [ResourceCache.bufferRecipe, ResourceCache.textureRecipe]

lemma Coherent.finish (h : m.Coherent detile) {key : ResourceKey} {a : ResourceCache.Acquired}
    (hpend : m.pending = some (key,a)) {r : ResourceCache.Recipe}
    (hwatch : watchPays key.layout → r.watch = true) :
    Coherent detile { m with
      cache := (m.cache.acquireFinish key r a).1
      watched := (m.cache.acquireFinish key r a).2.foldl applyWatch m.watched
      pending := none } := by
  have hwf := h.wellFormed
  have hbacked := h.backed
  cases a with
  | hit id =>
    simp only [entries, hpend] at hwf hbacked
    exact ⟨hwf,h.watched,hbacked⟩
  | miss entry =>
    simp only [entries, hpend] at hwf hbacked
    refine ⟨⟨hwf.keys,hwf.ids,hwf.minted⟩,?_,hbacked⟩
    intro p hp hpays htarget
    simp only [ResourceCache.acquireFinish]
    rcases List.mem_cons.mp hp with rfl | hp
    · simp only [hwatch hpays, if_true, List.foldl_cons, List.foldl_nil, applyWatch]
      split_ifs with hmem
      · exact hmem
      · simp
    · refine mem_foldl_applyWatch (h.watched p hp hpays htarget) ?_
      split_ifs <;> simp

section Run

variable {pol : CachePolicy} {m' : Machine} {key : ResourceKey}

lemma step_lookup {now : ℕ} {format : TextureFormat}
    (h : m.step pol detile (.lookup now key format) = some m') :
    m.pending = none ∧ ∃ r a c cmds, m.recipe pol detile key format = some r ∧
      ResourceCache.Reads (m.cache.trim now).1 key r a c cmds ∧
      m' = looked { m with
        cache := (m.cache.trim now).1
        backend := m.backend.replay (m.cache.trim now).2 } key a c cmds := by
  simp only [step] at h
  split at h
  case h_1 r hidle hrecipe =>
    obtain ⟨⟨a,c,cmds⟩,hread,rfl⟩ := Option.map_eq_some_iff.mp h
    obtain ⟨cmds',hreads,rfl⟩ := ResourceCache.acquireRead_reads hread
    refine ⟨hidle,r,a,c,cmds',hrecipe,hreads,?_⟩
    simp only [looked, Backend.replay_append]
  case h_2 => simp at h

/-- The thread of the cache starts an operation only when none is in flight. -/
lemma idle_of_step {x : Option Machine} (h : (if m.pending.isSome then none else x) = some m') :
    m.pending = none ∧ x = some m' := by
  split_ifs at h with hpend
  exact ⟨by simpa using hpend,h⟩

lemma Coherent.step (h : m.Coherent detile) {a : Action} (hsafe : m.Safe a)
    (hstep : m.step pol detile a = some m') : m'.Coherent detile := by
  cases a with
  | write addr data =>
    simp only [Machine.step] at hstep
    split_ifs at hstep with hlen
    cases hstep
    exact h.write hlen hsafe
  | remap readable =>
    cases hstep
    exact ⟨h.wellFormed,h.watched,h.backed⟩
  | lookup now key format =>
    obtain ⟨hidle,r,a,c,cmds,hrecipe,hreads,rfl⟩ := step_lookup hstep
    exact Serves.coherent (recipe_serves_trim hrecipe now) (h.trim hidle now) hidle hreads
  | finish =>
    simp only [Machine.step] at hstep
    cases hpend : m.pending with
    | none => simp [hpend] at hstep
    | some q =>
      obtain ⟨key,a⟩ := q
      simp only [hpend] at hstep
      obtain ⟨r,hrecipe,rfl⟩ := Option.map_eq_some_iff.mp hstep
      exact h.finish hpend (recipe_watch hrecipe)
  | rehash es =>
    simp only [Machine.step] at hstep
    split_ifs at hstep with hcond
    cases hstep
    exact h.rehash (Option.isNone_iff_eq_none.mp hcond.1) hcond.2
  | drain =>
    obtain ⟨hidle,heq⟩ := idle_of_step hstep
    cases heq
    exact h.drain hidle
  | invalidateRange addr size =>
    obtain ⟨hidle,heq⟩ := idle_of_step hstep
    cases heq
    exact h.markDirty hidle _
  | freeRange addr size =>
    obtain ⟨hidle,heq⟩ := idle_of_step hstep
    cases heq
    exact h.freeRange hidle addr size
  | getRenderTarget addr size format surface color =>
    obtain ⟨hidle,heq⟩ := idle_of_step hstep
    obtain ⟨⟨id,c,cmds⟩,hget,rfl⟩ := Option.map_eq_some_iff.mp heq
    exact h.getRenderTarget hidle hget
  | getSampler desc =>
    obtain ⟨hidle,heq⟩ := idle_of_step hstep
    obtain ⟨⟨id,c,cmds⟩,hget,rfl⟩ := Option.map_eq_some_iff.mp heq
    exact h.beside hidle (ResourceCache.getSampler_beside hget)
  | getWhiteDummy =>
    obtain ⟨hidle,heq⟩ := idle_of_step hstep
    obtain ⟨⟨id,c,cmds⟩,hget,rfl⟩ := Option.map_eq_some_iff.mp heq
    exact h.beside hidle (ResourceCache.getWhiteDummy_beside hget)

/-- Every step of the run is safe in the state it is taken in. -/
def SafeRun (pol : CachePolicy) (detile : Bytes → SurfaceLayout → Option Bytes) (m : Machine) :
    List Action → Prop
  | [] => True
  | a :: as => m.Safe a ∧ ∀ m', m.step pol detile a = some m' → m'.SafeRun pol detile as

lemma run_append (m : Machine) (as bs : List Action) :
    m.run pol detile (as ++ bs) = (m.run pol detile as).bind fun m' => m'.run pol detile bs := by
  induction as generalizing m with
  | nil => rfl
  | cons a as ih =>
    simp only [List.cons_append, run, Option.bind_assoc]
    exact Option.bind_congr fun m' _ => ih m'

lemma Coherent.run (h : m.Coherent detile) {as : List Action} (hsafe : m.SafeRun pol detile as)
    (hrun : m.run pol detile as = some m') : m'.Coherent detile := by
  induction as generalizing m with
  | nil =>
    cases hrun
    exact h
  | cons a as ih =>
    obtain ⟨n,hstep,hrun⟩ := Option.bind_eq_some_iff.mp hrun
    exact ih (h.step hsafe.1 hstep) (hsafe.2 n hstep) hrun

lemma boot_coherent (bytes : ℕ → UInt8) (readable : ℕ → ℕ → Bool) :
    (boot bytes readable).Coherent detile :=
  ⟨new_wellFormed,by simp [boot, ResourceCache.new],by simp [boot, entries, ResourceCache.new]⟩

/-- The action is no guest write to the key's range. -/
def Spares (key : ResourceKey) : Action → Prop
  | .write addr data => ¬Touches addr data.length key
  | _ => True

lemma quiet_reported {addr len : ℕ} (h : ¬Touches addr len key) : Quiet (m.reported addr len) key := by
  intro r hr
  obtain ⟨i,hi,rfl⟩ := List.mem_map.mp hr
  by_contra hover
  obtain ⟨hlo,hhi⟩ := mem_of_rangesOverlap_one (by simpa using hover)
  exact h ⟨i,List.mem_range.mp (List.mem_filter.mp hi).1,hlo,hhi⟩

/-- Steps that spare a key keep its guest bytes, and make no report about them. -/
lemma step_spares {a : Action} (h : m.step pol detile a = some m') (hspares : Spares key a) :
    (Quiet m.log key → Quiet m'.log key) ∧ view detile m'.bytes key = view detile m.bytes key := by
  have hsame : m'.log = m.log → m'.bytes = m.bytes →
      (Quiet m.log key → Quiet m'.log key) ∧ view detile m'.bytes key = view detile m.bytes key := by
    intro hlog hbytes
    rw [hlog, hbytes]
    exact ⟨id,rfl⟩
  cases a with
  | write addr data =>
    simp only [Machine.step] at h
    split_ifs at h
    cases h
    refine ⟨fun hq r hr => ?_,view_writeAt hspares⟩
    rcases List.mem_append.mp hr with hr | hr
    · exact hq r hr
    · exact quiet_reported hspares r hr
  | remap readable =>
    cases h
    exact hsame rfl rfl
  | lookup now key format =>
    obtain ⟨-,r,a,c,cmds,-,-,rfl⟩ := step_lookup h
    exact hsame rfl rfl
  | finish =>
    simp only [Machine.step] at h
    split at h
    · simp at h
    · obtain ⟨r,-,rfl⟩ := Option.map_eq_some_iff.mp h
      exact hsame rfl rfl
  | rehash es =>
    simp only [Machine.step] at h
    split_ifs at h
    cases h
    exact hsame rfl rfl
  | drain =>
    obtain ⟨-,heq⟩ := idle_of_step h
    cases heq
    exact ⟨fun _ _ hr => by simp at hr,rfl⟩
  | invalidateRange addr size | freeRange addr size =>
    obtain ⟨-,heq⟩ := idle_of_step h
    cases heq
    exact hsame rfl rfl
  | getRenderTarget addr size format surface color | getSampler desc | getWhiteDummy =>
    obtain ⟨-,heq⟩ := idle_of_step h
    obtain ⟨q,-,rfl⟩ := Option.map_eq_some_iff.mp heq
    exact hsame rfl rfl

lemma run_spares {as : List Action} (h : m.run pol detile as = some m')
    (hspares : ∀ a ∈ as, Spares key a) :
    (Quiet m.log key → Quiet m'.log key) ∧ view detile m'.bytes key = view detile m.bytes key := by
  induction as generalizing m with
  | nil =>
    cases h
    exact ⟨id,rfl⟩
  | cons a as ih =>
    obtain ⟨n,hstep,hrun⟩ := Option.bind_eq_some_iff.mp h
    obtain ⟨hquiet,hview⟩ := step_spares hstep (hspares a (by simp))
    obtain ⟨hquiet',hview'⟩ := ih hrun fun b hb => hspares b (List.mem_cons_of_mem _ hb)
    exact ⟨fun hq => hquiet' (hquiet hq),hview'.trans hview⟩

def IsGuest : Action → Prop
  | .write _ _ | .remap _ => True
  | _ => False

lemma run_guest {as : List Action} (h : m.run pol detile as = some m') (hguest : ∀ a ∈ as, IsGuest a) :
    m'.cache = m.cache ∧ m'.backend = m.backend ∧ m'.pending = m.pending := by
  induction as generalizing m with
  | nil =>
    cases h
    exact ⟨rfl,rfl,rfl⟩
  | cons a as ih =>
    obtain ⟨n,hstep,hrun⟩ := Option.bind_eq_some_iff.mp h
    have hn : n.cache = m.cache ∧ n.backend = m.backend ∧ n.pending = m.pending := by
      have ha := hguest a (by simp)
      cases a with
      | write addr data =>
        simp only [Machine.step] at hstep
        split_ifs at hstep
        cases hstep
        exact ⟨rfl,rfl,rfl⟩
      | remap readable =>
        cases hstep
        exact ⟨rfl,rfl,rfl⟩
      | _ => exact absurd ha id
    obtain ⟨hc,hb,hp⟩ := ih hrun fun b hb => hguest b (List.mem_cons_of_mem _ hb)
    exact ⟨hc.trans hn.1,hb.trans hn.2.1,hp.trans hn.2.2⟩

/-- What a copy shows changes only with the guest bytes of its key. -/
lemma contents_congr {e : Entry} {copy : Option Copy} (h : Fits key e copy)
    (htarget : key.layout.isTarget = false) {bytes bytes' : ℕ → UInt8}
    (hview : view detile bytes' key = view detile bytes key) :
    copy.bind (·.contents bytes') = copy.bind (·.contents bytes) := by
  unfold Fits at h
  split at h
  · rfl
  · rfl
  · obtain ⟨hlinear,-,rfl,rfl⟩ := h
    unfold view at hview
    split at hview
    · simp_all [isLinearBuffer]
    · exact hview
  · simp [htarget] at h
  · exact h.elim

/-- A whole lookup of the key, with guest actions between its read and its watch, leaves
a copy that shows the guest bytes. -/
def ServesGuestBytes (pol : CachePolicy) (detile : Bytes → SurfaceLayout → Option Bytes)
    (m : Machine) (key : ResourceKey) : Prop :=
  ∀ now format tail m' data, (∀ a ∈ tail, IsGuest a ∧ Spares key a) →
    m.readable key.addr key.size → view detile m.bytes key = some data →
    m.run pol detile (.lookup now key format :: (tail ++ [.finish])) = some m' →
    ∃ e, m'.cache.lookup key = some e ∧ m'.shown e.id = some data

lemma acquireFinish_congr (c : ResourceCache) (key : ResourceKey) (a : ResourceCache.Acquired)
    (r r' : ResourceCache.Recipe) :
    (c.acquireFinish key r a).1.lookup key = (c.acquireFinish key r' a).1.lookup key := by
  cases a <;> rfl

lemma entries_looked {r : ResourceCache.Recipe} {a : ResourceCache.Acquired} {c : ResourceCache}
    {cmds : List ResourceCmd} {p : ResourceKey × Entry}
    (hp : p ∈ (c.acquireFinish key r a).1.entries) : p ∈ (m.looked key a c cmds).entries := by
  cases a <;> exact hp

lemma step_finish {a : ResourceCache.Acquired} (hpend : m.pending = some (key,a))
    (h : m.step pol detile .finish = some m') :
    ∃ r, m'.cache = (m.cache.acquireFinish key r a).1 ∧ m'.backend = m.backend ∧
      m'.bytes = m.bytes := by
  simp only [Machine.step, hpend] at h
  obtain ⟨r,-,rfl⟩ := Option.map_eq_some_iff.mp h
  exact ⟨r,rfl,rfl,rfl⟩

lemma Coherent.servesGuestBytes (h : m.Coherent detile) (hquiet : Quiet m.log key) :
    m.ServesGuestBytes pol detile key := by
  intro now format tail m' data htail hread hview hrun
  obtain ⟨n,hlook,hrun⟩ := Option.bind_eq_some_iff.mp hrun
  rw [run_append] at hrun
  obtain ⟨n',htailRun,hfinish⟩ := Option.bind_eq_some_iff.mp hrun
  obtain ⟨hidle,r,a,c,cmds,hrecipe,hreads,rfl⟩ := step_lookup hlook
  have htrim := h.trim hidle now
  have hserves := recipe_serves_trim hrecipe now
  obtain ⟨hc,hb,hp⟩ := run_guest htailRun fun b hb => (htail b hb).1
  obtain ⟨-,hsame⟩ := run_spares htailRun fun b hb => (htail b hb).2
  obtain ⟨q,hfinish,hq⟩ := Option.bind_eq_some_iff.mp hfinish
  cases hq
  obtain ⟨r',hcache,hbackend,hbytes⟩ := step_finish (hp.trans rfl) hfinish
  obtain ⟨e,hentry,hid⟩ := Reads.entry hreads
  refine ⟨e,?_,?_⟩
  · rw [hcache, hc]
    exact (acquireFinish_congr c key a r' r).trans hentry
  · have hmem := ResourceCache.lookup_mem hentry
    have hfits := (hserves.backed htrim hidle hreads _ (entries_looked hmem)).fits
    rw [← hserves.shown htrim hidle hreads hquiet hread hview, shown, hbackend, hb, hbytes, hid]
    exact contents_congr (hid ▸ hfits) hserves.target hsame

/-- Once a drain has run after the last write to a key, a lookup of the key leaves a copy
that shows the guest bytes. -/
def FreshAfterDrain (pol : CachePolicy) (detile : Bytes → SurfaceLayout → Option Bytes)
    (m : Machine) (before between : List Action) (key : ResourceKey) : Prop :=
  (∀ a ∈ between, Spares key a) → ∀ m',
    m.run pol detile (before ++ .drain :: between) = some m' → m'.ServesGuestBytes pol detile key

end Run

variable (pol : CachePolicy) (detile : Bytes → SurfaceLayout → Option Bytes)

/-- No stale hit in any run whose guest writes all keep clear of a first use between the
read of its bytes and its watch. -/
theorem freshAfterDrain_of_safeRun (bytes : ℕ → UInt8) (readable : ℕ → ℕ → Bool)
    (before between : List Action) (key : ResourceKey)
    (hsafe : (boot bytes readable).SafeRun pol detile (before ++ .drain :: between)) :
    (boot bytes readable).FreshAfterDrain pol detile before between key := by
  intro hspares m hrun
  have hcoherent := (boot_coherent bytes readable).run hsafe hrun
  rw [run_append] at hrun
  obtain ⟨n,-,hrun⟩ := Option.bind_eq_some_iff.mp hrun
  obtain ⟨n',hdrain,hrun⟩ := Option.bind_eq_some_iff.mp hrun
  obtain ⟨-,heq⟩ := idle_of_step hdrain
  cases heq
  refine hcoherent.servesGuestBytes ((run_spares hrun hspares).1 fun r hr => ?_)
  simp at hr

lemma safe_of_idle {m : Machine} (h : m.pending = none) (a : Action) : m.Safe a := by
  cases a with
  | write addr data => simp [Safe, h]
  | _ => trivial

lemma finish_idle {m m' : Machine} (h : m.step pol detile .finish = some m') :
    m'.pending = none := by
  simp only [Machine.step] at h
  split at h
  · simp at h
  · obtain ⟨r,-,rfl⟩ := Option.map_eq_some_iff.mp h
    rfl

/-- An index buffer over zeroed memory. -/
def zeroKey : ResourceKey := ⟨0x1000,4,.indexBuf⟩

/-- A write to the buffer after its first use is seen by the next one. -/
theorem freshAfterDrain_watched_write :
    ∃ m' e, (boot (fun _ => 0) (fun _ _ => true)).run copyPolicy (fun bytes _ => some bytes)
        ([.lookup 0 zeroKey .r8g8b8a8Unorm,.finish,.write 0x1001 [7]] ++ .drain ::
          [.lookup 0 zeroKey .r8g8b8a8Unorm,.finish]) = some m' ∧
      m'.cache.lookup zeroKey = some e ∧ m'.shown e.id = some [0,7,0,0] := by
  have hfresh := freshAfterDrain_of_safeRun copyPolicy (fun bytes _ => some bytes) (fun _ => 0)
    (fun _ _ => true) [.lookup 0 zeroKey .r8g8b8a8Unorm,.finish,.write 0x1001 [7]] [] zeroKey
    ⟨trivial,fun _ _ => ⟨trivial,fun _ h => ⟨safe_of_idle (finish_idle _ _ h) _,fun _ _ =>
      ⟨trivial,fun _ _ => trivial⟩⟩⟩⟩ (by simp) _ rfl
  obtain ⟨e,hlook,hshown⟩ := hfresh 0 .r8g8b8a8Unorm [] _ [0,7,0,0] (by simp) rfl (by decide) rfl
  exact ⟨_,e,rfl,hlook,hshown⟩

/-- A write between the read of a first use and its watch is never reported: the entry
stays clean and a later lookup serves the old bytes. -/
theorem not_freshAfterDrain_unwatched_write :
    ¬∀ (bytes : ℕ → UInt8) (readable : ℕ → ℕ → Bool) (before between : List Action)
        (key : ResourceKey), (boot bytes readable).FreshAfterDrain copyPolicy
          (fun bytes _ => some bytes) before between key := by
  intro h
  have hfresh := h (fun _ => 0) (fun _ _ => true)
    [.lookup 0 zeroKey .r8g8b8a8Unorm,.write 0x1001 [7],.finish] [] zeroKey (by simp) _ rfl
  obtain ⟨e,hlook,hshown⟩ := hfresh 0 .r8g8b8a8Unorm [] _ [0,7,0,0] (by simp) rfl (by decide) rfl
  cases hlook
  exact absurd hshown (by decide)

end Machine

end Unemups4.Gnm
