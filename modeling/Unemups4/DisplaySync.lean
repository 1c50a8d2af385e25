import Unemups4.CacheCoherence
import Unemups4.Replay

/-! The display thread's objects mirror the cache: each live entry has a copy of its kind,
and every command of a submission does all it says. -/
namespace Unemups4.Gnm

namespace Copy

/-- The same kind of host object. -/
def Alike : Copy → Copy → Prop
  | buffer _, buffer _ | image _, image _ | sampler, sampler | target, target => True
  | imported a n, imported b k => a = b ∧ n = k
  | _, _ => False

lemma alike_upload (copy : Copy) (offset : ℕ) (data : Bytes) : copy.Alike (copy.upload offset data) := by
  cases copy with
  | buffer old =>
    simp only [upload]
    split_ifs <;> trivial
  | imported a n => exact ⟨rfl,rfl⟩
  | _ => trivial

lemma Alike.trans {a b c : Copy} (h : a.Alike b) (h' : b.Alike c) : a.Alike c := by
  cases a <;> cases b <;> cases c <;> simp_all [Alike]

lemma alike_refl (a : Copy) : a.Alike a := by
  cases a <;> simp [Alike]

end Copy

namespace Display

def applyAll (d : Display) (cmds : List ResourceCmd) : Display := cmds.foldl apply d

lemma applyAll_append (d : Display) (as bs : List ResourceCmd) :
    d.applyAll (as ++ bs) = (d.applyAll as).applyAll bs := List.foldl_append

lemma live_applyAll (d : Display) (cmds : List ResourceCmd) :
    (d.applyAll cmds).live = d.live.replay cmds := by
  induction cmds generalizing d with
  | nil => rfl
  | cons cmd cmds ih => exact ih (d.apply cmd)

lemma retired_apply_of_ne (d : Display) {cmd : ResourceCmd} {id : ℕ} (h : cmd.event.id ≠ id) :
    (d.apply cmd).retired id = d.retired id := by
  cases cmd with
  | freeResource x => exact Function.update_of_ne (Ne.symm h) _ _
  | _ => rfl

lemma held_apply_of_ne (d : Display) {cmd : ResourceCmd} {id : ℕ} (h : cmd.event.id ≠ id) :
    (d.apply cmd).held id = d.held id := by
  have hlive : (d.apply cmd).live id = d.live id := d.live.apply_of_ne h
  rw [held, held, hlive, d.retired_apply_of_ne h]

lemma held_applyAll_of_ne (d : Display) {cmds : List ResourceCmd} {id : ℕ}
    (h : ∀ cmd ∈ cmds, cmd.event.id ≠ id) : (d.applyAll cmds).held id = d.held id := by
  induction cmds generalizing d with
  | nil => rfl
  | cons cmd cmds ih =>
    have hrest := ih (d.apply cmd) fun c hc => h c (List.mem_cons_of_mem _ hc)
    exact hrest.trans (d.held_apply_of_ne (h cmd (by simp)))

/-- Uploads keep the kind of what they fill. -/
lemma alike_of_uses (d : Display) {cmds : List ResourceCmd} {id : ℕ} {copy : Copy}
    (hlive : d.live id = some copy) (h : ∀ cmd ∈ cmds, cmd.event.id = id → cmd.event = .use id) :
    ∃ copy', (d.applyAll cmds).live id = some copy' ∧ copy.Alike copy' := by
  induction cmds generalizing d copy with
  | nil => exact ⟨copy,hlive,copy.alike_refl⟩
  | cons cmd cmds ih =>
    have hrest : ∀ c ∈ cmds, c.event.id = id → c.event = .use id :=
      fun c hc => h c (List.mem_cons_of_mem _ hc)
    by_cases hid : cmd.event.id = id
    · have huse := h cmd (by simp) hid
      cases cmd with
      | uploadBuffer x offset data =>
        obtain rfl : x = id := hid
        have hone : (d.apply (.uploadBuffer x offset data)).live x = some (copy.upload offset data) := by
          simp [apply, Backend.apply, hlive]
        obtain ⟨copy',hcopy,halike⟩ := ih _ hone hrest
        exact ⟨copy',hcopy,(copy.alike_upload offset data).trans halike⟩
      | uploadImage x data =>
        obtain rfl : x = id := hid
        have hone : (d.apply (.uploadImage x data)).live x = some (copy.upload 0 data) := by
          simp [apply, Backend.apply, hlive]
        obtain ⟨copy',hcopy,halike⟩ := ih _ hone hrest
        exact ⟨copy',hcopy,(copy.alike_upload 0 data).trans halike⟩
      | _ => simp [ResourceCmd.event] at huse
    · have hone : (d.apply cmd).live id = some copy := (d.live.apply_of_ne hid).trans hlive
      exact ih _ hone hrest

/-- Every command does all it says, in turn. -/
def Whole (d : Display) : List ResourceCmd → Prop
  | [] => True
  | cmd :: cmds => (cmd.Whole d.live ∧ ∀ id, cmd.event = .create id → d.held id = none) ∧
      (d.apply cmd).Whole cmds

lemma applyAll_pipelines_live (d : Display) (f : ℕ → Option HostPipeline)
    (cmds : List ResourceCmd) :
    (applyAll { d with pipelines := f } cmds).live = (d.applyAll cmds).live := by
  rw [live_applyAll, live_applyAll]

lemma applyAll_pipelines_retired (d : Display) (f : ℕ → Option HostPipeline)
    (cmds : List ResourceCmd) :
    (applyAll { d with pipelines := f } cmds).retired = (d.applyAll cmds).retired := by
  induction cmds generalizing d with
  | nil => rfl
  | cons cmd cmds ih => exact ih (d.apply cmd)

lemma Whole.append {d : Display} {as bs : List ResourceCmd} (ha : d.Whole as)
    (hb : (d.applyAll as).Whole bs) : d.Whole (as ++ bs) := by
  induction as generalizing d with
  | nil => exact hb
  | cons a as ih => exact ⟨ha.1,ih ha.2 hb⟩

lemma whole_of_frees (d : Display) {cmds : List ResourceCmd}
    (h : ∀ cmd ∈ cmds, ∃ id, cmd = .freeResource id) : d.Whole cmds := by
  induction cmds generalizing d with
  | nil => trivial
  | cons cmd cmds ih =>
    obtain ⟨id,rfl⟩ := h cmd (by simp)
    refine ⟨⟨trivial,by simp [ResourceCmd.event]⟩,?_⟩
    exact ih _ fun c hc => h c (List.mem_cons_of_mem _ hc)

end Display

/-- The display mirrors the cache. No resource is imported, as the draw path copies all. -/
structure Synced (c : ResourceCache) (d : Display) : Prop where
  wellFormed : c.WellFormed
  copied : ∀ p ∈ c.entries, p.2.imported = false
  fits : ∀ p ∈ c.entries, Fits p.1 p.2 (d.live p.2.id)
  samplers : ∀ s ∈ c.samplers, d.live s.2 = some .sampler
  dummy : ∀ id, c.whiteDummy = some id → ∃ t, d.live id = some (.image t)
  fresh : ∀ id, c.nextId ≤ id → d.held id = none

namespace Synced

variable {c c' : ResourceCache} {d : Display} {cmds : List ResourceCmd}

lemma held_nextId (h : Synced c d) : d.held c.nextId = none := h.fresh _ le_rfl

lemma live_nextId (h : Synced c d) : d.live c.nextId = none := by
  have hnone := h.held_nextId
  cases hlive : d.live c.nextId with
  | none => rfl
  | some copy => simp [Display.held, hlive] at hnone

/-- What is live before and after an operation keeps its kind. -/
lemma alike (h : Synced c d) (hemits : c.Emits cmds c') {id : ℕ} (hid : id ∈ c.liveIds)
    (hid' : id ∈ c'.liveIds) {copy : Copy} (hcopy : d.live id = some copy) :
    ∃ copy', (d.applyAll cmds).live id = some copy' ∧ copy.Alike copy' := by
  obtain ⟨hc',hf⟩ := hemits h.wellFormed
  refine d.alike_of_uses hcopy fun cmd hcmd heq => ?_
  exact hf.eq_use_of_live (List.mem_toFinset.mpr hid) (List.mem_toFinset.mpr hid') _
    (List.mem_map_of_mem hcmd) heq

lemma step (h : Synced c d) (hemits : c.Emits cmds c')
    (hcopied : ∀ p ∈ c'.entries, p.2.imported = false)
    (hfits : ∀ p ∈ c'.entries, Fits p.1 p.2 ((d.applyAll cmds).live p.2.id))
    (hsamplers : ∀ s ∈ c'.samplers, s ∈ c.samplers ∨ (d.applyAll cmds).live s.2 = some .sampler)
    (hdummy : ∀ id, c'.whiteDummy = some id → c.whiteDummy = some id ∨
      ∃ t, (d.applyAll cmds).live id = some (.image t)) : Synced c' (d.applyAll cmds) := by
  obtain ⟨hc',hf⟩ := hemits h.wellFormed
  refine ⟨hc',hcopied,hfits,?_,?_,?_⟩
  · intro s hs
    rcases hsamplers s hs with hold | hnew
    · have hid : ∀ x : ResourceCache, s ∈ x.samplers → s.2 ∈ x.liveIds := fun x hx =>
        List.mem_append_right _ (List.mem_append_left _ (List.mem_map_of_mem hx))
      obtain ⟨copy,hcopy,halike⟩ := h.alike hemits (hid c hold) (hid c' hs) (h.samplers s hold)
      cases copy <;> simp_all [Copy.Alike]
    · exact hnew
  · intro id hid
    rcases hdummy id hid with hold | hnew
    · have hmem : ∀ x : ResourceCache, x.whiteDummy = some id → id ∈ x.liveIds := fun x hx =>
        List.mem_append_right _ (List.mem_append_right _ (by simp [hx]))
      obtain ⟨t,ht⟩ := h.dummy id hold
      obtain ⟨copy,hcopy,halike⟩ := h.alike hemits (hmem c hold) (hmem c' hid) ht
      cases copy with
      | image t' => exact ⟨t',hcopy⟩
      | _ => exact halike.elim
    · exact hnew
  · intro id hid
    have hne : ∀ cmd ∈ cmds, cmd.event.id ≠ id := fun cmd hcmd heq => by
      have hlt := hf.id_lt _ (List.mem_map_of_mem hcmd)
      simp only [ResourceCache.ledger] at hlt
      omega
    rw [d.held_applyAll_of_ne hne]
    have hle := hf.next_le
    exact h.fresh id (le_trans hle hid)

lemma kept_copied (h : Synced c d) {p : ResourceKey × Entry} (hp : Kept c cmds p) :
    p.2.imported = false := by
  obtain ⟨q,hq,-,-,himp,-⟩ := hp
  rw [← himp]
  exact h.copied q hq

lemma kept_fits (h : Synced c d) {p : ResourceKey × Entry} (hp : Kept c cmds p) :
    Fits p.1 p.2 ((d.applyAll cmds).live p.2.id) := by
  rw [d.live_applyAll]
  exact hp.fits h.fits

/-- An operation that keeps every entry, the samplers and the white dummy. -/
lemma of_kept (h : Synced c d) (hemits : c.Emits cmds c') (hkept : ∀ p ∈ c'.entries, Kept c cmds p)
    (hsamplers : c'.samplers = c.samplers) (hdummy : c'.whiteDummy = c.whiteDummy) :
    Synced c' (d.applyAll cmds) := by
  refine h.step hemits (fun p hp => h.kept_copied (hkept p hp))
    (fun p hp => h.kept_fits (hkept p hp)) (fun s hs => .inl ?_) fun id hid => .inl ?_
  · exact hsamplers ▸ hs
  · exact hdummy ▸ hid

lemma trim (h : Synced c d) (now : ℕ) :
    d.Whole (c.trim now).2 ∧ Synced (c.trim now).1 (d.applyAll (c.trim now).2) := by
  refine ⟨d.whole_of_frees (trim_frees c now).2,?_⟩
  refine h.of_kept (c.trim_emits now) (trim_kept h.wellFormed now) ?_ ?_
  · exact (trim_frame c now).1
  · exact (trim_frame c now).2

lemma markDirty (h : Synced c d) (hit : ResourceKey → Bool) : Synced (c.markDirty hit) d := by
  change Synced _ (d.applyAll [])
  exact h.of_kept (c.markDirty_emits hit) (markDirty_kept c hit) rfl rfl

lemma invalidateRange (h : Synced c d) (addr size : ℕ) : Synced (c.invalidateRange addr size) d :=
  h.markDirty _

lemma applyDirty (h : Synced c d) (ranges : List (ℕ × ℕ)) : Synced (c.applyDirty ranges) d :=
  h.markDirty _

section Lookup

variable {key : ResourceKey} {r : ResourceCache.Recipe} {a : ResourceCache.Acquired}
  {detile : Bytes → SurfaceLayout → Option Bytes} {bytes : ℕ → UInt8} {readable : ℕ → ℕ → Bool}

/-- The machine a lookup reads the guest memory of. -/
def reader (c : ResourceCache) (d : Display) (bytes : ℕ → UInt8) (readable : ℕ → ℕ → Bool) :
    Machine := ⟨c,bytes,readable,[],[],d.live,none⟩

lemma reads_whole (h : Synced c d) (hr : (reader c d bytes readable).Serves detile key r)
    (hreads : c.Reads key r a c' cmds) : d.Whole cmds := by
  have hcreate : ∀ id, (r.create c.nextId).event = .create id → d.held id = none := by
    intro id hid
    rw [hr.lawful.create] at hid
    cases hid
    exact h.held_nextId
  have hfresh : (r.create c.nextId).Whole d.live := by
    have hev := hr.lawful.create c.nextId
    have hnone := h.live_nextId
    cases hcmd : r.create c.nextId <;> simp_all [ResourceCmd.event, ResourceCmd.Whole]
  cases hreads with
  | clean => trivial
  | unreadable => trivial
  | @reupload e cmd hlook hclean hup =>
    have hfits := h.fits _ (ResourceCache.lookup_mem hlook)
    have hcmd := (hr.upload hup (hr.copied hclean hfits) hfits).2.2
    exact ⟨⟨hcmd,by simp [hr.lawful.upload _ _ hup]⟩,trivial⟩
  | imported => exact ⟨⟨hfresh,hcreate⟩,trivial⟩
  | filled hlook himp hup =>
    have hfits := hr.create c.nextId d.live
      (e := ⟨c.nextId,false,false,false,c.trimmedFlip⟩) (by simpa using himp)
    have hcmd := (hr.upload hup rfl hfits).2.2
    exact ⟨⟨hfresh,hcreate⟩,⟨hcmd,by simp [hr.lawful.upload _ _ hup]⟩,trivial⟩
  | unfilled => exact ⟨⟨hfresh,hcreate⟩,trivial⟩

lemma modify_copied (h : ∀ p ∈ c.entries, p.2.imported = false) {f : Entry → Entry}
    (hf : ∀ e, (f e).imported = e.imported) : ∀ p ∈ (c.modify key f).entries, p.2.imported = false := by
  intro p hp
  obtain ⟨q,hq,rfl⟩ := List.mem_map.mp hp
  split_ifs
  · exact (hf q.2).trans (h q hq)
  · exact h q hq

lemma reads_copied (h : Synced c d) (hcopy : r.imported = false)
    (hreads : c.Reads key r a c' cmds) :
    ∀ p ∈ (c'.acquireFinish key r a).1.entries, p.2.imported = false := by
  have htouch : ∀ p ∈ (c.touch key).entries, p.2.imported = false :=
    modify_copied h.copied fun _ => rfl
  have hmiss : ∀ {e : Entry}, e.imported = false → ∀ p ∈ (key,e) :: c.entries, p.2.imported = false := by
    intro e he p hp
    rcases List.mem_cons.mp hp with rfl | hp
    · exact he
    · exact h.copied p hp
  cases hreads with
  | clean => exact htouch
  | unreadable => exact htouch
  | reupload => exact modify_copied htouch fun _ => rfl
  | imported hlook himp => simp [hcopy] at himp
  | filled => exact hmiss rfl
  | unfilled => exact hmiss rfl

lemma reads_synced (h : Synced c d) (hr : (reader c d bytes readable).Serves detile key r)
    (hcopy : r.imported = false) (hreads : c.Reads key r a c' cmds) :
    Synced (c'.acquireFinish key r a).1 (d.applyAll cmds) := by
  refine h.step (hreads.emits hr.lawful) (h.reads_copied hcopy hreads) (fun p hp => ?_)
    (fun s hs => .inl ?_) fun id hid => .inl ?_
  · have hp' : p ∈ ((reader c d bytes readable).looked key a c' cmds).entries :=
      Machine.entries_looked hp
    rcases hr.renewed h.wellFormed h.fits hreads p hp' with hkept | ⟨-,hfits,-⟩
    · exact h.kept_fits hkept
    · rw [d.live_applyAll]
      exact hfits
  · cases hreads <;> exact hs
  · cases hreads <;> exact hid

variable (bytes readable detile) in
lemma acquire (h : Synced c d) {now id : ℕ} {ws : List WatchOp}
    (hr : ∀ c d, (reader c d bytes readable).Serves detile key r) (hcopy : r.imported = false)
    (hget : c.acquire now key r = some (id,c',cmds,ws)) :
    d.Whole cmds ∧ Synced c' (d.applyAll cmds) ∧ ∃ e, c'.lookup key = some e ∧ e.id = id := by
  unfold ResourceCache.acquire at hget
  cases hread : c.acquireRead now key r with
  | none => simp [hread] at hget
  | some t =>
    obtain ⟨a,c₁,out⟩ := t
    simp only [hread, Option.some.injEq] at hget
    obtain ⟨cmds',hreads,rfl⟩ := ResourceCache.acquireRead_reads hread
    cases hget
    obtain ⟨hwhole,htrim⟩ := h.trim now
    refine ⟨hwhole.append (htrim.reads_whole (hr _ _) hreads),?_,Machine.Reads.entry hreads⟩
    rw [d.applyAll_append]
    exact htrim.reads_synced (hr _ _) hcopy hreads

end Lookup

lemma getRenderTarget (h : Synced c d) {addr size id : ℕ} {format : SurfaceFormat}
    {surface : SurfaceLayout} {color : ColorFormat}
    (hget : c.getRenderTarget ⟨addr,size,.renderTarget format surface⟩ surface color =
      some (id,c',cmds)) :
    d.Whole cmds ∧ Synced c' (d.applyAll cmds) ∧
      ∃ e, c'.lookup ⟨addr,size,.renderTarget format surface⟩ = some e ∧ e.id = id := by
  have hemits := ResourceCache.getRenderTarget_emits hget
  obtain ⟨e,hlook,rfl,rfl,rfl⟩ | ⟨-,rfl,rfl,rfl⟩ := ResourceCache.getRenderTarget_eq_some hget
  · refine ⟨trivial,h.of_kept hemits (modify_kept _ _ _) rfl rfl,?_⟩
    have htouch := Machine.lookup_modify c ⟨addr,size,.renderTarget format surface⟩
      fun e => { e with lastUsed := c.trimmedFlip }
    rw [hlook] at htouch
    exact ⟨_,htouch,rfl⟩
  · refine ⟨⟨⟨h.live_nextId,?_⟩,trivial⟩,?_,⟨_,List.lookup_cons_self,rfl⟩⟩
    · intro id hid
      cases hid
      exact h.held_nextId
    · refine h.step hemits (fun p hp => ?_) (fun p hp => ?_) (fun _ hs => .inl hs)
        fun _ hid => .inl hid
      · rcases List.mem_cons.mp hp with rfl | hp
        · rfl
        · exact h.copied p hp
      rcases List.mem_cons.mp hp with rfl | hp
      · simp [Display.applyAll, Display.apply, Backend.apply, Fits, ResLayout.isTarget]
      · refine h.kept_fits (kept_of_fresh h.wellFormed ?_ hp)
        simp [ResourceCmd.event, Lifetime.Event.id]

lemma getSampler (h : Synced c d) {desc : SamplerDesc} {id : ℕ}
    (hget : c.getSampler desc = some (id,c',cmds)) :
    d.Whole cmds ∧ Synced c' (d.applyAll cmds) ∧ (d.applyAll cmds).live id = some .sampler := by
  have hemits := ResourceCache.getSampler_emits hget
  obtain ⟨hlook,rfl,rfl⟩ | ⟨-,rfl,rfl,rfl⟩ := ResourceCache.getSampler_eq_some hget
  · refine ⟨trivial,h,?_⟩
    obtain ⟨l₁,l₂,heq,-⟩ := List.lookup_eq_some_iff.mp hlook
    exact h.samplers (desc,_) (by rw [heq]; simp)
  · have hlive : (d.applyAll [.createSampler c.nextId desc]).live c.nextId = some .sampler := by
      simp [Display.applyAll, Display.apply, Backend.apply]
    refine ⟨⟨⟨h.live_nextId,?_⟩,trivial⟩,?_,hlive⟩
    · intro id hid
      cases hid
      exact h.held_nextId
    · refine h.step hemits h.copied (fun p hp => ?_) (fun s hs => ?_) fun _ hid => .inl hid
      · refine h.kept_fits (kept_of_fresh h.wellFormed ?_ hp)
        simp [ResourceCmd.event, Lifetime.Event.id]
      · rcases List.mem_cons.mp hs with rfl | hs
        · exact .inr hlive
        · exact .inl hs

lemma getWhiteDummy (h : Synced c d) {id : ℕ} (hget : c.getWhiteDummy = some (id,c',cmds)) :
    d.Whole cmds ∧ Synced c' (d.applyAll cmds) ∧ ∃ t, (d.applyAll cmds).live id = some (.image t) := by
  have hemits := ResourceCache.getWhiteDummy_emits hget
  obtain ⟨hdummy,rfl,rfl⟩ | ⟨-,rfl,rfl,rfl⟩ := ResourceCache.getWhiteDummy_eq_some hget
  · exact ⟨trivial,h,h.dummy _ hdummy⟩
  · have hlive : (d.applyAll [.createImage c.nextId 1 1 .r8g8b8a8Unorm,
        .uploadImage c.nextId [0xff,0xff,0xff,0xff]]).live c.nextId =
          some (.image (some [0xff,0xff,0xff,0xff])) := by
      simp [Display.applyAll, Display.apply, Backend.apply, Copy.upload]
    refine ⟨⟨⟨h.live_nextId,?_⟩,⟨?_,?_⟩,trivial⟩,?_,⟨_,hlive⟩⟩
    · intro id hid
      cases hid
      exact h.held_nextId
    · simp [ResourceCmd.Whole, Display.apply, Backend.apply, Copy.upload, Copy.data]
    · simp [ResourceCmd.event]
    · refine h.step hemits h.copied (fun p hp => ?_) (fun _ hs => .inl hs) fun x hx => .inr ?_
      · refine h.kept_fits (kept_of_fresh h.wellFormed ?_ hp)
        simp [ResourceCmd.event, Lifetime.Event.id]
      · cases hx
        exact ⟨_,hlive⟩

lemma isBuffer (h : Synced c d) {key : ResourceKey} {e : Entry} (hlook : c.lookup key = some e)
    (hlinear : isLinearBuffer key.layout) : d.isBuffer e.id := by
  have hmem := ResourceCache.lookup_mem hlook
  have hcopied : e.imported = false := h.copied _ hmem
  have hfits : Fits key e (d.live e.id) := h.fits _ hmem
  unfold Display.isBuffer
  cases hlive : d.live e.id with
  | none => simp [hlive, Fits] at hfits
  | some copy =>
    rw [hlive] at hfits
    cases copy with
    | buffer data => rfl
    | image texels =>
      obtain ⟨⟨format,surface,hlayout⟩,-⟩ := hfits
      simp [hlayout, isLinearBuffer] at hlinear
    | imported addr size => simp [Fits, hcopied] at hfits
    | sampler => exact hfits.elim
    | target => cases hlayout : key.layout <;> simp_all [Fits, isLinearBuffer, ResLayout.isTarget]

lemma isSampled (h : Synced c d) {key : ResourceKey} {e : Entry} (hlook : c.lookup key = some e)
    (hlinear : isLinearBuffer key.layout = false) : d.isSampled e.id := by
  have hfits : Fits key e (d.live e.id) := h.fits _ (ResourceCache.lookup_mem hlook)
  unfold Display.isSampled Display.held
  cases hlive : d.live e.id with
  | none => simp [hlive, Fits] at hfits
  | some copy =>
    rw [hlive] at hfits
    cases copy with
    | image texels => rfl
    | target => rfl
    | sampler => exact hfits.elim
    | _ => simp [Fits, hlinear] at hfits

/-- A sampler takes a new id, so no image changes. -/
lemma getSampler_isSampled (h : Synced c d) {desc : SamplerDesc} {id x : ℕ}
    (hget : c.getSampler desc = some (id,c',cmds)) (hx : d.isSampled x) :
    (d.applyAll cmds).isSampled x := by
  obtain ⟨-,rfl,rfl⟩ | ⟨-,rfl,rfl,rfl⟩ := ResourceCache.getSampler_eq_some hget
  · exact hx
  · have hne : x ≠ c.nextId := by
      rintro rfl
      simp [Display.isSampled, h.held_nextId] at hx
    simpa [Display.isSampled, Display.held, Display.applyAll, Display.apply, Backend.apply,
      Function.update_of_ne hne] using hx

end Synced

def resourceCmds (cmds : List BackendCmd) : List ResourceCmd :=
  cmds.filterMap fun cmd => match cmd with
    | .resource cmd => some cmd
    | _ => none

lemma resourceCmds_append (as bs : List BackendCmd) :
    resourceCmds (as ++ bs) = resourceCmds as ++ resourceCmds bs := List.filterMap_append

lemma resourceCmds_resource (cmds : List ResourceCmd) : resourceCmds (cmds.map .resource) = cmds := by
  induction cmds with
  | nil => rfl
  | cons cmd cmds ih => exact congrArg (cmd :: ·) ih

/-- The replay leaves the host objects that the resource commands make. -/
lemma run_held (r : Replay) (cmds : List BackendCmd) :
    (r.run cmds).display.live = (r.display.applyAll (resourceCmds cmds)).live ∧
      (r.run cmds).display.retired = (r.display.applyAll (resourceCmds cmds)).retired := by
  induction cmds generalizing r with
  | nil => exact ⟨rfl,rfl⟩
  | cons cmd cmds ih =>
    obtain ⟨hlive,hretired⟩ := ih (r.step cmd)
    rw [r.run_cons, hlive, hretired]
    cases cmd with
    | resource c => exact ⟨rfl,rfl⟩
    | createPipeline id p =>
      simp only [Replay.step, Replay.update]
      split_ifs
      · exact ⟨rfl,rfl⟩
      · exact ⟨Display.applyAll_pipelines_live _ _ _,Display.applyAll_pipelines_retired _ _ _⟩
    | _ => exact ⟨rfl,rfl⟩

namespace Exec

/-- The commands so far do all they say, and leave the display in step with the cache. -/
structure InSync (d : Display) (e : Exec) : Prop where
  synced : Synced e.cache (d.applyAll (resourceCmds e.cmds))
  whole : d.Whole (resourceCmds e.cmds)

variable {d : Display} {e e' : Exec} {T : Toolchain}

lemma InSync.emit (h : e.InSync d) {cmd : BackendCmd} (hcmd : ∀ c, cmd ≠ .resource c) :
    (e.emit cmd).InSync d := by
  have heq : resourceCmds (e.emit cmd).cmds = resourceCmds e.cmds := by
    rw [Exec.emit, resourceCmds_append]
    cases cmd with
    | resource c => exact absurd rfl (hcmd c)
    | _ => simp [resourceCmds]
  exact ⟨by rw [heq]; exact h.synced,by rw [heq]; exact h.whole⟩

lemma InSync.take (h : e.InSync d) {r : ℕ × ResourceCache × List ResourceCmd}
    (hwhole : (d.applyAll (resourceCmds e.cmds)).Whole r.2.2)
    (hsynced : Synced r.2.1 ((d.applyAll (resourceCmds e.cmds)).applyAll r.2.2)) :
    (e.take r).2.InSync d := by
  have heq : resourceCmds (e.take r).2.cmds = resourceCmds e.cmds ++ r.2.2 := by
    simp [Exec.take, resourceCmds_append, resourceCmds_resource]
  refine ⟨?_,?_⟩
  · rw [heq, d.applyAll_append]
    exact hsynced
  · rw [heq]
    exact h.whole.append hwhole

lemma take_eq {id : ℕ} {r : ℕ × ResourceCache × List ResourceCmd} (h : e.take r = (id,e')) :
    id = r.1 ∧ e' = (e.take r).2 ∧
      d.applyAll (resourceCmds e'.cmds) = (d.applyAll (resourceCmds e.cmds)).applyAll r.2.2 := by
  cases h
  simp [Exec.take, resourceCmds_append, resourceCmds_resource, Display.applyAll_append]

lemma InSync.fetch (h : e.InSync d) {now id : ℕ} {key : ResourceKey}
    (hlinear : isLinearBuffer key.layout) (hget : e.fetch now key = some (id,e')) :
    e'.InSync d ∧ (d.applyAll (resourceCmds e'.cmds)).isBuffer id := by
  obtain ⟨⟨x,c,cmds,ws⟩,hacq,heq⟩ := Option.map_eq_some_iff.mp hget
  obtain ⟨hwhole,hsynced,entry,hlook,rfl⟩ := h.synced.acquire (fun bytes _ => some bytes) e.bytes e.readable
    (fun _ _ => Machine.bufferRecipe_serves copyPolicy hlinear) (by simp [ResourceCache.bufferRecipe,
      ResourceCache.importable, copyPolicy]) hacq
  obtain ⟨rfl,rfl,hafter⟩ := take_eq (d := d) heq
  refine ⟨h.take hwhole hsynced,?_⟩
  rw [hafter]
  exact hsynced.isBuffer hlook hlinear

lemma InSync.fetchTexture (h : e.InSync d) {now id : ℕ} {key : ResourceKey} {format : SurfaceFormat}
    {surface : SurfaceLayout} {pixel : TextureFormat} (hlayout : key.layout = .texture format surface)
    (hget : e.fetchTexture T now key surface pixel = some (id,e')) :
    e'.InSync d ∧ (d.applyAll (resourceCmds e'.cmds)).isSampled id := by
  obtain ⟨⟨x,c,cmds,ws⟩,hacq,heq⟩ := Option.map_eq_some_iff.mp hget
  obtain ⟨hwhole,hsynced,entry,hlook,rfl⟩ := h.synced.acquire T.detile e.bytes e.readable
    (fun _ _ => Machine.textureRecipe_serves hlayout pixel) rfl hacq
  obtain ⟨rfl,rfl,hafter⟩ := take_eq (d := d) heq
  refine ⟨h.take hwhole hsynced,?_⟩
  rw [hafter]
  exact hsynced.isSampled hlook (by simp [hlayout, isLinearBuffer])

lemma InSync.fetchRenderTarget (h : e.InSync d) {base size id : ℕ} {target : TargetDesc}
    (hget : e.fetchRenderTarget base size target = some (id,e')) :
    e'.InSync d ∧ (d.applyAll (resourceCmds e'.cmds)).isSampled id := by
  obtain ⟨⟨x,c,cmds⟩,hrt,heq⟩ := Option.map_eq_some_iff.mp hget
  obtain ⟨hwhole,hsynced,entry,hlook,rfl⟩ := h.synced.getRenderTarget hrt
  obtain ⟨rfl,rfl,hafter⟩ := take_eq (d := d) heq
  refine ⟨h.take hwhole hsynced,?_⟩
  rw [hafter]
  exact hsynced.isSampled hlook rfl

lemma InSync.fetchSampler (h : e.InSync d) {desc : SamplerDesc} {id : ℕ}
    (hget : e.fetchSampler desc = some (id,e')) :
    e'.InSync d ∧ (d.applyAll (resourceCmds e'.cmds)).isSampler id ∧
      ∀ x, (d.applyAll (resourceCmds e.cmds)).isSampled x →
        (d.applyAll (resourceCmds e'.cmds)).isSampled x := by
  obtain ⟨⟨x,c,cmds⟩,hs,heq⟩ := Option.map_eq_some_iff.mp hget
  obtain ⟨hwhole,hsynced,hlive⟩ := h.synced.getSampler hs
  obtain ⟨rfl,rfl,hafter⟩ := take_eq (d := d) heq
  refine ⟨h.take hwhole hsynced,?_,?_⟩ <;> rw [hafter]
  · simp [Display.isSampler, hlive]
  · exact fun x hx => h.synced.getSampler_isSampled hs hx

lemma InSync.fetchWhiteDummy (h : e.InSync d) {id : ℕ} (hget : e.fetchWhiteDummy = some (id,e')) :
    e'.InSync d ∧ (d.applyAll (resourceCmds e'.cmds)).isSampled id := by
  obtain ⟨⟨x,c,cmds⟩,hw,heq⟩ := Option.map_eq_some_iff.mp hget
  obtain ⟨hwhole,hsynced,t,hlive⟩ := h.synced.getWhiteDummy hw
  obtain ⟨rfl,rfl,hafter⟩ := take_eq (d := d) heq
  refine ⟨h.take hwhole hsynced,?_⟩
  rw [hafter]
  simp [Display.isSampled, Display.held, hlive]

/-- A pass is opened before the target is committed. -/
lemma registerRenderTarget_renderTargets {target : TargetDesc}
    (hreg : e.registerRenderTarget target = some e') : e'.renderTargets = e.renderTargets := by
  unfold Exec.registerRenderTarget at hreg
  split at hreg
  · cases hreg
    rfl
  · obtain ⟨⟨id,e₁⟩,hget,rfl⟩ := Option.map_eq_some_iff.mp hreg
    obtain ⟨r,-,heq⟩ := Option.map_eq_some_iff.mp hget
    cases heq
    rfl

lemma InSync.registerRenderTarget (h : e.InSync d) {target : TargetDesc}
    (hreg : e.registerRenderTarget target = some e') : e'.InSync d := by
  unfold Exec.registerRenderTarget at hreg
  split at hreg
  · cases hreg
    exact h
  · obtain ⟨⟨id,e₁⟩,hget,rfl⟩ := Option.map_eq_some_iff.mp hreg
    exact (h.fetchRenderTarget hget).1.emit (by simp)

lemma InSync.bindPipeline (h : e.InSync d) (p : HostPipeline) : (e.bindPipeline p).InSync d := by
  unfold Exec.bindPipeline
  split
  · exact h.emit (by simp)
  · obtain ⟨hsynced,hwhole⟩ := h.emit (d := d) (fun c => BackendCmd.noConfusion :
      ∀ c, .createPipeline e.nextPipeline p ≠ BackendCmd.resource c)
    refine InSync.emit ?_ (by simp)
    exact ⟨hsynced,hwhole⟩

lemma InSync.fetchImage (h : e.InSync d) {now id : ℕ} {src : TextureSource}
    (hget : e.fetchImage T now src = some (id,e')) :
    e'.InSync d ∧ (d.applyAll (resourceCmds e'.cmds)).isSampled id := by
  cases src with
  | renderTarget rt t => exact h.fetchRenderTarget hget
  | plain t =>
    simp only [Exec.fetchImage] at hget
    split_ifs at hget
    · exact h.fetchWhiteDummy hget
    · exact h.fetchTexture rfl hget

lemma InSync.bindTexture (h : e.InSync d) {now : ℕ} {b : Gcn.SamplerBinding × TextureSource}
    (hbind : e.bindTexture T now b = some e') : e'.InSync d := by
  obtain ⟨⟨imageId,e₁⟩,himage,hbind⟩ := Option.bind_eq_some_iff.mp hbind
  obtain ⟨⟨samplerId,e₂⟩,hsampler,rfl⟩ := Option.map_eq_some_iff.mp hbind
  exact ((h.fetchImage himage).1.fetchSampler hsampler).1.emit (by simp)

lemma InSync.bindConst (h : e.InSync d) {now : ℕ} {c : Gcn.ConstBufferBinding × BufferRange}
    (hbind : e.bindConst now c = some e') : e'.InSync d := by
  obtain ⟨⟨id,e₁⟩,hget,rfl⟩ := Option.map_eq_some_iff.mp hbind
  exact (h.fetch rfl hget).1.emit (by simp)

lemma InSync.bindStorage (h : e.InSync d) {now : ℕ} {b : ℕ × Gcn.BufferBinding × BufferRange}
    (hbind : e.bindStorage now b = some e') : e'.InSync d := by
  obtain ⟨⟨id,e₁⟩,hget,rfl⟩ := Option.map_eq_some_iff.mp hbind
  exact (h.fetch rfl hget).1.emit (by simp)

lemma InSync.bindVertex (h : e.InSync d) {now : ℕ} {b : ℕ × BufferRange}
    (hbind : e.bindVertex now b = some e') : e'.InSync d := by
  obtain ⟨⟨id,e₁⟩,hget,rfl⟩ := Option.map_eq_some_iff.mp hbind
  exact (h.fetch rfl hget).1.emit (by simp)

/-- What one bind keeps, a list of them keeps. -/
lemma bindAll_induct {α : Type} {bind : Exec → α → Option Exec} {P : Exec → Prop} {as : List α}
    (hbind : ∀ e, ∀ a ∈ as, ∀ e', P e → bind e a = some e' → P e') (h : P e)
    (hall : bindAll bind e as = some e') : P e' := by
  induction as generalizing e with
  | nil =>
    cases hall
    exact h
  | cons a as ih =>
    obtain ⟨e₁,hone,hrest⟩ := Option.bind_eq_some_iff.mp hall
    exact ih (fun e a ha => hbind e a (List.mem_cons_of_mem _ ha)) (hbind e a (by simp) e₁ h hone) hrest

lemma InSync.bindBuffers (h : e.InSync d) {i : DrawInputs} {vs : HostShader} {bound : Bool}
    (hbind : e.bindBuffers i vs = some (e',bound)) : e'.InSync d := by
  unfold Exec.bindBuffers at hbind
  split_ifs at hbind
  · cases hbind
    exact h
  · obtain ⟨e₁,hall,heq⟩ := Option.map_eq_some_iff.mp hbind
    cases heq
    exact bindAll_induct (fun _ _ _ _ h hb => InSync.bindStorage h hb) h hall
  · obtain ⟨e₁,hall,heq⟩ := Option.map_eq_some_iff.mp hbind
    cases heq
    exact bindAll_induct (fun _ _ _ _ h hb => InSync.bindVertex h hb) h hall

lemma InSync.commitTarget (h : e.InSync d) (target : TargetDesc) : (e.commitTarget target).InSync d := by
  unfold Exec.commitTarget
  split
  · exact h
  · exact ⟨h.synced,h.whole⟩

lemma InSync.bindDraw (h : e.InSync d) {i : DrawInputs} {vs ps : HostShader} {draw : DrawState}
    {r : Resolved} {ready : Bool} (hbind : e.bindDraw T i vs ps draw r = some (e',ready)) :
    e'.InSync d := by
  simp only [Exec.bindDraw, Option.bind_eq_bind, Option.pure_def] at hbind
  obtain ⟨e₁,htex,hbind⟩ := Option.bind_eq_some_iff.mp hbind
  obtain ⟨e₂,hconst,hbind⟩ := Option.bind_eq_some_iff.mp hbind
  obtain ⟨⟨e₃,bound⟩,hbuf,hbind⟩ := Option.bind_eq_some_iff.mp hbind
  have h₁ := bindAll_induct (fun _ _ _ _ h hb => InSync.bindTexture h hb) (h.bindPipeline _) htex
  have h₂ := bindAll_induct (fun _ _ _ _ h hb => InSync.bindConst h hb) h₁ hconst
  have h₃ := h₂.bindBuffers hbuf
  split_ifs at hbind
  · cases hbind
    exact ((h₃.commitTarget draw.target).emit (by simp)).emit (by simp)
  · cases hbind
    exact h₃

lemma InSync.setupDraw (h : e.InSync d) {i : DrawInputs} {ready : Bool}
    (hsetup : e.setupDraw T i = some (e',ready)) : e'.InSync d := by
  have h₀ : (e.resolveShaders T i.bound).2.InSync d := ⟨h.synced,h.whole⟩
  simp only [Exec.setupDraw] at hsetup
  split at hsetup
  · cases hsetup
    exact h₀
  · split at hsetup
    · cases hsetup
      exact h₀
    · obtain ⟨e₁,hreg,hsetup⟩ := Option.bind_eq_some_iff.mp hsetup
      have h₁ := h₀.registerRenderTarget hreg
      split at hsetup
      · cases hsetup
        exact h₁
      · exact h₁.bindDraw hsetup

lemma InSync.drawIndexed (h : e.InSync d) {now base count : ℕ} {t : IndexType}
    (hdraw : e.drawIndexed now base count t = some e') : e'.InSync d := by
  unfold Exec.drawIndexed at hdraw
  split_ifs at hdraw
  · cases hdraw
    exact h
  · obtain ⟨⟨id,e₁⟩,hget,rfl⟩ := Option.map_eq_some_iff.mp hdraw
    exact (h.fetch rfl hget).1.emit (by simp)

lemma InSync.dispatchIndexed (h : e.InSync d) {i : DrawInputs} {base count : ℕ}
    (hdraw : e.dispatchIndexed T i base count = some e') : e'.InSync d := by
  obtain ⟨⟨e₁,ready⟩,hsetup,hdraw⟩ := Option.bind_eq_some_iff.mp hdraw
  have h₁ := h.setupDraw hsetup
  cases ready with
  | true => exact h₁.drawIndexed hdraw
  | false =>
    cases hdraw
    exact h₁

lemma InSync.dmaData (h : e.InSync d) (src dst len : ℕ) : (e.dmaData src dst len).InSync d := by
  unfold Exec.dmaData
  by_cases hnull : src = 0 ∨ dst = 0 ∨ len = 0
  · simpa [hnull] using h
  · rw [if_neg hnull]
    cases e.read src len with
    | none => exact h
    | some data =>
      dsimp only
      split_ifs
      · exact ⟨h.synced,h.whole⟩
      · exact h

lemma InSync.handle (h : e.InSync d) {p : Packet} (hp : e.handle T p = some e') :
    e'.InSync d := by
  cases p with
  | drawIndexAuto i count =>
    obtain ⟨⟨e₁,ready⟩,hsetup,rfl⟩ := Option.map_eq_some_iff.mp hp
    have h₁ := h.setupDraw hsetup
    cases ready with
    | true => exact h₁.emit (by simp)
    | false => exact h₁
  | drawIndex2 i body | drawIndexOffset2 i body =>
    cases body with
    | none =>
      cases hp
      exact h
    | some b => exact h.dispatchIndexed hp
  | indexType t | indexBase base | indexBufferSize maxSize =>
    cases hp
    exact ⟨h.synced,h.whole⟩
  | dmaData src dst len =>
    cases hp
    exact h.dmaData src dst len
  | acquireMem base size =>
    simp only [Exec.handle, Option.some.injEq] at hp
    subst hp
    split_ifs
    · exact h
    · exact ⟨h.synced.invalidateRange base size,h.whole⟩

/-- Every command a submission appends does all it says. -/
lemma InSync.walk (h : e.InSync d) {ps : List Packet} (hwalk : e.walk T ps = some e') :
    e'.InSync d := by
  induction ps generalizing e with
  | nil =>
    cases hwalk
    exact h
  | cons p ps ih =>
    obtain ⟨e₁,hp,hrest⟩ := Option.bind_eq_some_iff.mp hwalk
    exact ih (h.handle hp) hrest

end Exec

/-- The next list starts by recycling what the last one freed. -/
def Display.retire (d : Display) : Display := { d with retired := fun _ => none }

/-- The executor and the display between two command lists, in any session from boot on.
Guest threads write memory and free ranges between submissions, and reported writes are
applied before one. -/
inductive Session (T : Toolchain) : Exec → Display → Prop
  | boot (index : IndexState) (bytes : ℕ → UInt8) (readable : ℕ → ℕ → Bool) :
      Session T ⟨.new,[],[],1,[],index,bytes,readable,[]⟩
        ⟨fun _ => none,fun _ => none,fun _ => none⟩
  | submit {e e' : Exec} {d : Display} (packets : List Packet) :
      Session T e d → e.walk T packets = some e' →
      Session T { e' with cmds := [] } (replayCommandList d e'.cmds).display.retire
  | guest {e : Exec} {d : Display} (bytes : ℕ → UInt8) (readable : ℕ → ℕ → Bool) :
      Session T e d → Session T { e with bytes := bytes, readable := readable } d
  | dirty {e : Exec} {d : Display} (ranges : List (ℕ × ℕ)) :
      Session T e d → Session T (e.applyDirty ranges) d
  | free {e : Exec} {d : Display} (addr size : ℕ) :
      Session T e d → Session T { e with cache := (e.cache.freeRange addr size).1 }
        (d.applyAll (e.cache.freeRange addr size).2.1).retire
  | rehash {e : Exec} {d : Display} {entries : List (ResourceKey × Entry)} :
      Session T e d → entries.Perm e.cache.entries →
      Session T { e with cache.entries := entries } d

namespace Session

variable {e e' : Exec} {d : Display} {T : Toolchain}

lemma synced_congr {c : ResourceCache} {d' : Display} (h : Synced c d) (hlive : d'.live = d.live)
    (hheld : ∀ id, d.held id = none → d'.held id = none) : Synced c d' := by
  refine ⟨h.wellFormed,h.copied,?_,?_,?_,fun id hid => hheld id (h.fresh id hid)⟩ <;> rw [hlive]
  · exact h.fits
  · exact h.samplers
  · exact h.dummy

lemma synced_retire {c : ResourceCache} (h : Synced c d) : Synced c d.retire := by
  refine synced_congr h rfl fun id hid => ?_
  cases hlive : d.live id with
  | none => simp [Display.held, Display.retire, hlive]
  | some copy => simp [Display.held, hlive] at hid

lemma synced_freeRange {c : ResourceCache} (h : Synced c d) (addr size : ℕ) :
    Synced (c.freeRange addr size).1 (d.applyAll (c.freeRange addr size).2.1) := by
  set keys := (c.entries.map (·.1)).filter fun k => rangesOverlap k.addr k.size addr size
  have hfrees := c.freeKeys_frees keys
  refine h.of_kept hfrees.emits ?_ hfrees.frame.1 hfrees.frame.2
  refine kept_of_frees h.wellFormed hfrees.emits (fun _ hp => hfrees.entries hp) fun cmd hcmd => ?_
  obtain ⟨p,-,-,heq⟩ := hfrees.named cmd hcmd
  exact ⟨p.2.id,heq⟩

lemma inSync_of_synced (h : Synced e.cache d) (hcmds : e.cmds = []) : e.InSync d := by
  refine ⟨?_,?_⟩ <;> rw [hcmds]
  · exact h
  · trivial

lemma synced_submit (h : e'.InSync d) : Synced e'.cache (replayCommandList d e'.cmds).display := by
  obtain ⟨hlive,hretired⟩ := run_held (Replay.start d) e'.cmds
  refine synced_congr h.synced hlive fun id hid => ?_
  rw [Display.held] at hid ⊢
  rw [replayCommandList, hlive, hretired]
  exact hid

/-- Between two lists the display mirrors the cache. -/
lemma synced (h : Session T e d) : Synced e.cache d ∧ e.cmds = [] := by
  induction h with
  | boot index bytes readable =>
    refine ⟨⟨new_wellFormed,?_,?_,?_,?_,fun _ _ => rfl⟩,rfl⟩ <;> simp [ResourceCache.new]
  | submit packets _ hwalk ih =>
    have hsync := (inSync_of_synced ih.1 ih.2).walk hwalk
    have hafter := synced_submit hsync
    exact ⟨synced_retire hafter,rfl⟩
  | guest bytes readable _ ih => exact ih
  | dirty ranges _ ih => exact ⟨ih.1.applyDirty ranges,ih.2⟩
  | free addr size _ ih => exact ⟨synced_retire (synced_freeRange ih.1 addr size),ih.2⟩
  | rehash _ hperm ih =>
    obtain ⟨hwf,-⟩ := ResourceCache.rehash_emits hperm ih.1.wellFormed
    refine ⟨⟨hwf,fun p hp => ih.1.copied p (hperm.mem_iff.mp hp),
      fun p hp => ih.1.fits p (hperm.mem_iff.mp hp),ih.1.samplers,ih.1.dummy,ih.1.fresh⟩,ih.2⟩

lemma inSync (h : Session T e d) : e.InSync d := inSync_of_synced h.synced.1 h.synced.2

end Session

end Unemups4.Gnm
